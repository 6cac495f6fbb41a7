import Exc.Socket.Framing

/-!
# The buffer of a receiver

When a receive stays inside of its buffer. The length of a frame comes from the network and is
checked nowhere. A length from 0 on, but for `INT_MAX`, is safe on every wire. For `INT_MAX` the
size of the buffer overflows. For a negative length the buffer has the size that `n + 1` gives as a
`size_t`, up to `n` as a `size_t` bytes are read, and the null byte would be written in front of the
buffer: nothing goes wrong only when the receive breaks off before (`rev_inBounds_iff`).
-/

set_option autoImplicit false
set_option relaxedAutoImplicit false

namespace Exc.Socket

open Lib

/-! ### The buffer -/

/-- The length that a receive finds in the header of a frame. -/
def lengthField (order : ByteOrder) (header : List UInt8) : ℤ :=
  toInt (order.hostToNet (order.load header))

/-- The condition on the length `n`, when so many bytes arrive behind the header, and `clean` says
that the stream ends there without an error. -/
def RevEnv.SafeLength (env : RevEnv) (n : ℤ) (arrives : ℕ) (clean : Prop) : Prop :=
  n < intMax ∧
    (¬env.malloc ∨ 0 ≤ n ∨ n = -1 ∧ arrives = 0 ∧ ¬clean ∨
      n < -1 ∧ arrives < 2 ^ env.sizeBits + n ∧
        (¬clean ∨ toInt arrives = -1 ∨ toInt arrives < n))

/-- The condition on a receive: it does not come to the length of the message, or the length is
safe. -/
def InBounds (env : RevEnv) (outNull : Bool) (wire : Wire) : Prop :=
  outNull ∨ env.readTimeout ≠ 0 ∨ wire.arriving.length < 4 ∨
    env.SafeLength (lengthField env.order (wire.arriving.take 4)) (wire.arriving.length - 4)
      wire.Clean

variable {env : RevEnv} {n : ℤ} {wire : Wire}

/-- The number of bytes that are read and the size of the buffer, for a negative length. -/
theorem RevEnv.size_of_negative (env : RevEnv) (hmin : -2 ^ 31 ≤ n) (hneg : n < -1) :
    ((n % 2 ^ env.sizeBits).toNat : ℤ) = 2 ^ env.sizeBits + n ∧
      (((n + 1) % 2 ^ env.sizeBits).toNat : ℤ) = 2 ^ env.sizeBits + n + 1 := by
  rcases env.size_bits with hbits | hbits <;> rw [hbits] <;> omega

/-- A `size_t` that was made from an `int` gives it back. -/
theorem RevEnv.toInt_size (env : RevEnv) (hmin : -2 ^ 31 ≤ n) (hmax : n < 2 ^ 31) :
    toInt (2 ^ env.sizeBits + n) = n := by
  have hmod : (2 ^ env.sizeBits + n) % (2 ^ 32 : ℕ) = n % (2 ^ 32 : ℕ) := by
    rcases env.size_bits with hbits | hbits <;> rw [hbits] <;> omega
  rw [toInt, ← Int.emod_bmod, hmod, Int.emod_bmod]
  exact toInt_eq_self hmin hmax

/-- The second half of a receive has no undefined behaviour when the buffer has room for what is
stored, and when it breaks off or the null byte falls into the buffer. -/
theorem revBody_ok_iff_readn (hmax : n < intMax) (hmalloc : env.malloc) {ret : ℤ}
    {stored : List UInt8} {later : Wire}
    (hread : readn (n % 2 ^ env.sizeBits).toNat wire = (ret, stored, later)) :
    (∃ result, revBody env n wire = .ok result) ↔
      stored.length ≤ ((n + 1) % 2 ^ env.sizeBits).toNat ∧
        (ret = -1 ∨ ret < n ∨ 0 ≤ n ∧ n < ((n + 1) % 2 ^ env.sizeBits).toNat) := by
  rw [revBody, if_neg (by omega), if_neg (not_not_intro hmalloc), hread]
  dsimp only
  split_ifs with hoverrun hfailed hshort hinside
  · exact iff_of_false (by simp) (fun hroom ↦ absurd hoverrun (not_lt.mpr hroom.1))
  · exact iff_of_true ⟨_, rfl⟩ ⟨not_lt.mp hoverrun, .inl hfailed⟩
  · exact iff_of_true ⟨_, rfl⟩ ⟨not_lt.mp hoverrun, .inr (.inl hshort)⟩
  · exact iff_of_true ⟨_, rfl⟩ ⟨not_lt.mp hoverrun, .inr (.inr hinside)⟩
  · exact iff_of_false (by simp) fun hroom ↦ hroom.2.elim hfailed (·.elim hshort hinside)

/-- A length that is not negative is safe. -/
theorem revBody_ok_of_nonneg (hmax : n < intMax) (hmalloc : env.malloc) (hnonneg : 0 ≤ n) :
    ∃ result, revBody env n wire = .ok result := by
  obtain ⟨length, rfl⟩ := Int.eq_ofNat_of_zero_le hnonneg
  rw [intMax] at hmax
  obtain ⟨hcount, hsize⟩ := env.size_of_length (show length < 2 ^ 31 by omega)
  obtain ⟨later, hread⟩ := readnLoop_arriving length length [] wire (Nat.zero_add _)
  obtain ⟨henough, hloop, -⟩ | ⟨hshort, hloop⟩ := hread
  · refine (revBody_ok_iff_readn hmax hmalloc (hcount.symm ▸ hloop)).mpr ?_
    rw [hsize, List.nil_append, List.length_take]
    exact ⟨by omega, .inr (.inr (by omega))⟩
  · refine (revBody_ok_iff_readn hmax hmalloc (hcount.symm ▸ hloop)).mpr ?_
    rw [hsize, List.nil_append]
    exact ⟨by omega, .inr (.inr (by omega))⟩

/-- The length -1 gives a buffer of no bytes. -/
theorem revBody_ok_iff_minus_one (hmalloc : env.malloc) :
    (∃ result, revBody env (-1) wire = .ok result) ↔
      wire.arriving.length = 0 ∧ ¬wire.Clean := by
  have hcount : 0 < ((-1) % 2 ^ env.sizeBits : ℤ).toNat := by
    rcases env.size_bits with hbits | hbits <;> rw [hbits] <;> decide
  obtain ⟨later, hread⟩ := readnLoop_arriving ((-1) % 2 ^ env.sizeBits : ℤ).toNat
    ((-1) % 2 ^ env.sizeBits : ℤ).toNat [] wire (Nat.zero_add _)
  obtain ⟨henough, hloop, -⟩ | ⟨hshort, hloop⟩ := hread
  · rw [revBody_ok_iff_readn (by decide) hmalloc hloop, List.nil_append, List.length_take]
    simp only [Int.add_left_neg, Int.zero_emod, Int.toNat_zero]
    omega
  · rw [revBody_ok_iff_readn (by decide) hmalloc hloop, List.nil_append, List.length_nil]
    simp only [Int.add_left_neg, Int.zero_emod, Int.toNat_zero]
    split_ifs with hclean
    · refine iff_of_false (fun hroom ↦ ?_) fun hunsafe ↦ hunsafe.2 hclean
      rw [Nat.le_zero.mp hroom.1] at hroom
      exact absurd hroom.2 (by decide)
    · simp [hclean]

/-- A length below -1 gives a buffer that is large enough, but there is no place in it for the null
byte. -/
theorem revBody_ok_iff_negative (hmin : -2 ^ 31 ≤ n) (hneg : n < -1) (hmalloc : env.malloc) :
    (∃ result, revBody env n wire = .ok result) ↔
      (wire.arriving.length : ℤ) < 2 ^ env.sizeBits + n ∧
        (¬wire.Clean ∨ toInt wire.arriving.length = -1 ∨ toInt wire.arriving.length < n) := by
  obtain ⟨hcount, hsize⟩ := env.size_of_negative hmin hneg
  have hmax : n < intMax := by
    rw [intMax]
    omega
  obtain ⟨later, hread⟩ := readnLoop_arriving (n % 2 ^ env.sizeBits).toNat
    (n % 2 ^ env.sizeBits).toNat [] wire (Nat.zero_add _)
  obtain ⟨henough, hloop, -⟩ | ⟨hshort, hloop⟩ := hread
  · rw [revBody_ok_iff_readn hmax hmalloc hloop, hcount, env.toInt_size hmin (by omega)]
    refine iff_of_false (fun hroom ↦ ?_) fun hunsafe ↦ ?_
    · omega
    · omega
  · rw [revBody_ok_iff_readn hmax hmalloc hloop, List.nil_append, List.length_nil, Nat.zero_add]
    split_ifs with hclean
    · simp only [hclean, not_true_eq_false, false_or]
      omega
    · simp only [hclean, not_false_eq_true, true_or, and_true]
      omega

/-- The second half of a receive has no undefined behaviour exactly when the length is safe. -/
theorem revBody_ok_iff (hmin : -2 ^ 31 ≤ n) :
    (∃ result, revBody env n wire = .ok result) ↔
      env.SafeLength n wire.arriving.length wire.Clean := by
  rw [RevEnv.SafeLength]
  by_cases hmax : n < intMax
  · rw [and_iff_right hmax]
    by_cases hmalloc : env.malloc
    · rw [or_iff_right (not_not_intro hmalloc)]
      rcases lt_trichotomy n (-1) with hneg | rfl | hnonneg
      · rw [revBody_ok_iff_negative hmin hneg hmalloc]
        simp only [hneg, hneg.ne, show ¬0 ≤ n by omega, false_and, false_or, true_and]
      · rw [revBody_ok_iff_minus_one hmalloc]
        simp
      · exact iff_of_true (revBody_ok_of_nonneg hmax hmalloc (by omega)) (.inl (by omega))
    · refine iff_of_true ⟨(⟨errMalloc, none⟩, wire), ?_⟩ (.inl hmalloc)
      rw [revBody, if_neg (by omega), if_pos hmalloc]
  · refine iff_of_false ?_ fun hsafe ↦ hmax hsafe.1
    rintro ⟨result, hresult⟩
    rw [revBody, if_pos (by omega)] at hresult
    cases hresult

/-- The length field is an `int`. -/
theorem lengthField_min (order : ByteOrder) (header : List UInt8) :
    -2 ^ 31 ≤ lengthField order header := by
  have hmin := Int.le_bmod (x := order.hostToNet (order.load header)) (Nat.two_pow_pos 32)
  rw [lengthField, toInt]
  omega

theorem rev_ok_iff (env : RevEnv) (outNull : Bool) (wire : Wire) :
    (∃ result, rev env outNull wire = .ok result) ↔ InBounds env outNull wire := by
  rw [rev, InBounds]
  by_cases hnull : outNull
  · rw [if_pos hnull]
    exact iff_of_true ⟨_, rfl⟩ (.inl hnull)
  rw [if_neg hnull, or_iff_right hnull]
  by_cases htimeout : env.readTimeout ≠ 0
  · rw [if_pos htimeout]
    refine iff_of_true ?_ (.inl htimeout)
    split_ifs <;> exact ⟨_, rfl⟩
  rw [if_neg htimeout, or_iff_right htimeout]
  obtain ⟨later, hread⟩ := readnLoop_arriving 4 4 [] wire rfl
  obtain ⟨henough, hloop, hrest, hlater⟩ | ⟨hshort, hloop⟩ := hread
  · rw [toInt_eq_self (by decide) (by decide)] at hloop
    have hheader : readn 4 wire = (4, wire.arriving.take 4, later) := hloop
    rw [hheader, or_iff_right (by omega), ← List.length_drop, ← hrest]
    dsimp only
    rw [if_neg (by decide), if_neg (by decide), ← lengthField,
      revBody_ok_iff (lengthField_min _ _), hlater]
  · obtain ⟨ret, hret, hheader⟩ :
        ∃ ret : ℤ, ret < 4 ∧ readn 4 wire = (ret, wire.arriving, later) := by
      refine ⟨_, ?_, hloop⟩
      split_ifs
      · rw [List.length_nil, Nat.zero_add, toInt_eq_self (by omega) (by omega)]
        omega
      · decide
    rw [hheader]
    refine iff_of_true ?_ (.inl hshort)
    dsimp only
    split_ifs <;> exact ⟨_, rfl⟩

/-- A receive has no undefined behaviour, which is overflow, a write behind the buffer or a null
byte outside of it, exactly when it is in bounds: for every stream, byte order and size of `size_t`,
and every outcome of `read_timeout` and `malloc`. -/
theorem rev_inBounds_iff (env : RevEnv) (outNull : Bool) (wire : Wire) :
    ((∃ result, sckClientRev env outNull wire = .ok result) ↔ InBounds env outNull wire) ∧
    ((∃ result, sckServerRev env outNull wire = .ok result) ↔ InBounds env outNull wire) :=
  ⟨rev_ok_iff env outNull wire, rev_ok_iff env outNull wire⟩

/-- The length `INT_MAX` in a header. -/
theorem rev_overflows :
    sckServerRev bigReceiver false [.data 0x7F [0xFF, 0xFF, 0xFF]] = .error .signedOverflow ∧
    ¬∀ (env : RevEnv) (outNull : Bool) (wire : Wire),
      (∃ result, sckClientRev env outNull wire = .ok result) ∧
      ∃ result, sckServerRev env outNull wire = .ok result := by
  have hserver : sckServerRev bigReceiver false [.data 0x7F [0xFF, 0xFF, 0xFF]] =
      .error .signedOverflow := by
    obtain ⟨later, -, hheader, -⟩ : ∃ later : Wire, later.Clean ∧
        readn 4 [.data 0x7F [0xFF, 0xFF, 0xFF]] = (4, [0x7F, 0xFF, 0xFF, 0xFF], later) ∧
        later.content = [] :=
      readn_spec (by decide) rfl rfl (by decide)
    have hlength : toInt (bigReceiver.order.hostToNet
        (bigReceiver.order.load [0x7F, 0xFF, 0xFF, 0xFF])) = intMax := by decide
    rw [sckServerRev, rev, if_neg Bool.false_ne_true, if_neg (by decide), hheader]
    dsimp only
    rw [if_neg (by decide), if_neg (by decide), hlength, revBody, if_pos (by decide)]
  refine ⟨hserver, fun hall ↦ ?_⟩
  obtain ⟨-, result, hresult⟩ := hall bigReceiver false [.data 0x7F [0xFF, 0xFF, 0xFF]]
  rw [hserver] at hresult
  cases hresult

end Exc.Socket
