import Exc.Hash.Ripemd160
import Exc.Hash.Sha256

/-!
# Hashes of hashes

`CHash256` hashes with SHA-256 twice, and `CHash160` with SHA-256 and then RIPEMD-160. Both keep one
`CSHA256` and hand the calls to it. `CHash256::Finalize` uses this object for the second hash also,
`CHash160::Finalize` makes a new `CRIPEMD160`.

What an object of these classes does with its `CSHA256` is a history of calls of that
(`innerCalls`), in which the same text is written (`exists_innerCalls`). The classes of the members
are parameters here.
-/

set_option autoImplicit false
set_option relaxedAutoImplicit false

namespace Exc.Hash

open Lib BlockHash HasherClass

variable {σ τ : Type} {sha : HasherClass σ} {ripemd : HasherClass τ}

/-! ### The code -/

namespace Hash256

/-- `CHash256::Finalize`: the result, and the member that is left. -/
def finalize (sha : HasherClass σ) (member : Hasher σ) : List UInt8 × Hasher σ :=
  let first := sha.finalize member
  sha.finalize (sha.write (sha.reset first.2) first.1)

def call (sha : HasherClass σ) (member : Hasher σ) : Call → Hasher σ
  | .write data => sha.write member data
  | .finalize => (finalize sha member).2
  | .reset => sha.reset member

/-- A new `CHash256` after a number of calls. -/
def calls (sha : HasherClass σ) (buf : List UInt8) (history : List Call) : Hasher σ :=
  history.foldl (call sha) (sha.construct buf)

end Hash256

namespace Hash160

/-- `CHash160::Finalize`: the result, and the member that is left. The new `CRIPEMD160` holds what
was in memory. -/
def finalize (sha : HasherClass σ) (ripemd : HasherClass τ) (memory : List UInt8)
    (member : Hasher σ) : List UInt8 × Hasher σ :=
  let first := sha.finalize member
  ((ripemd.finalize (ripemd.write (ripemd.construct memory) first.1)).1, first.2)

end Hash160

/-! ### The member -/

/-- What `CHash256` does with its member. -/
def innerCalls (sha : HasherClass σ) (member : Hasher σ) : Call → List Call
  | .write data => [.write data]
  | .finalize => [.finalize, .reset, .write (sha.finalize member).1, .finalize]
  | .reset => [.reset]

theorem foldl_innerCalls (member : Hasher σ) (call : Call) :
    (innerCalls sha member call).foldl sha.call member = Hash256.call sha member call := by
  cases call <;> rfl

theorem fits_innerCalls (hlength : ∀ state, (sha.output state).length < 2 ^ 63)
    (member : Hasher σ) {call : Call} (hcall : Fits call) :
    ∀ inner ∈ innerCalls sha member call, Fits inner := by
  cases call with
  | write data =>
    intro inner hinner
    exact List.mem_singleton.mp hinner ▸ hcall
  | finalize =>
    have hresult : Fits (.write (sha.finalize member).1) := hlength _
    intro inner hinner
    simp only [innerCalls, List.mem_cons, List.not_mem_nil, or_false] at hinner
    obtain rfl | rfl | rfl | rfl := hinner
    · trivial
    · trivial
    · exact hresult
    · trivial
  | reset =>
    intro inner hinner
    exact List.mem_singleton.mp hinner ▸ hcall

/-- Every history of a `CHash256` is one of its member, with the same text. By induction on the
history, from its end. -/
theorem exists_innerCalls (hlength : ∀ state, (sha.output state).length < 2 ^ 63)
    (buf : List UInt8) (history : List Call) (hfits : ∀ call ∈ history, Fits call) :
    ∃ inner, (∀ call ∈ inner, Fits call) ∧ Hash256.calls sha buf history = sha.calls buf inner ∧
      written inner = written history := by
  induction history using List.reverseRecOn with
  | nil =>
    have hnil : Hash256.calls sha buf [] = sha.construct buf := List.foldl_nil
    have hinnerNil : sha.calls buf [] = sha.construct buf := List.foldl_nil
    exact ⟨[], by simp, by rw [hnil, hinnerNil], rfl⟩
  | append_singleton history call ih =>
    obtain ⟨inner, hinner, hcalls, hwritten⟩ :=
      ih fun earlier hearlier ↦ hfits earlier (List.mem_append_left _ hearlier)
    have hcall := hfits call (List.mem_append_right _ (List.mem_singleton_self call))
    refine ⟨inner ++ innerCalls sha (sha.calls buf inner) call, ?_, ?_, ?_⟩
    · intro next hnext
      obtain hnext | hnext := List.mem_append.mp hnext
      · exact hinner next hnext
      · exact fits_innerCalls hlength _ hcall next hnext
    · have hinnerCalls (more : List Call) :
          sha.calls buf (inner ++ more) = more.foldl sha.call (sha.calls buf inner) :=
        List.foldl_append
      rw [Hash256.calls, List.foldl_append, ← Hash256.calls, hcalls, List.foldl_cons,
        List.foldl_nil, hinnerCalls, foldl_innerCalls]
    · rw [written, List.foldl_append, ← written, hwritten, written, written, List.foldl_append]
      cases call <;> rfl

variable {shaStandard : Standard σ UInt8} {ripemdStandard : Standard τ UInt8}
  {buf memory : List UInt8} {history : List Call} {text : List UInt8}

theorem Hash256.finalize_calls (hsha : sha.Follows shaStandard)
    (hresult : ∀ state, (shaStandard.output state).length < 2 ^ 32)
    (hbuf : buf.length = sha.chunk) (hfits : ∀ call ∈ history, Fits call)
    (hwritten : written history = some text) (hlength : 8 * text.length < 2 ^ 64) :
    (finalize sha (calls sha buf history)).1 = shaStandard.hash (shaStandard.hash text) := by
  have houtput (state : σ) : (sha.output state).length < 2 ^ 63 := by
    rw [hsha.output]
    exact (hresult state).trans (by decide)
  obtain ⟨inner, hinner, hcalls, hsame⟩ := exists_innerCalls houtput buf history hfits
  have hfirst := hsha.finalize_calls hbuf hinner (hsame.trans hwritten) hlength
  have hshort : (shaStandard.hash text).length < 2 ^ 32 := hresult _
  -- Before the second result the member was reset, and the first result was written to it.
  have hsecondFits : ∀ call ∈ inner ++ [.finalize, .reset, .write (shaStandard.hash text)],
      Fits call := by
    intro call hcall
    simp only [List.mem_append, List.mem_cons, List.not_mem_nil, or_false] at hcall
    obtain hcall | rfl | rfl | rfl := hcall
    · exact hinner call hcall
    · trivial
    · trivial
    · exact hshort.trans (by decide)
  have hsecondWritten : written (inner ++ [.finalize, .reset, .write (shaStandard.hash text)]) =
      some (shaStandard.hash text) := by
    rw [written, List.foldl_append]
    rfl
  have hsecond := hsha.finalize_calls hbuf hsecondFits hsecondWritten (by omega)
  rw [HasherClass.calls, List.foldl_append, ← HasherClass.calls] at hsecond
  rw [hcalls, finalize, hfirst]
  exact hsecond

theorem Hash160.finalize_calls (hsha : sha.Follows shaStandard)
    (hripemd : ripemd.Follows ripemdStandard)
    (hresult : ∀ state, (shaStandard.output state).length < 2 ^ 32)
    (hbuf : buf.length = sha.chunk) (hmemory : memory.length = ripemd.chunk)
    (hfits : ∀ call ∈ history, Fits call) (hwritten : written history = some text)
    (hlength : 8 * text.length < 2 ^ 64) :
    (finalize sha ripemd memory (sha.calls buf history)).1 =
      ripemdStandard.hash (shaStandard.hash text) := by
  have hfirst := hsha.finalize_calls hbuf hfits hwritten hlength
  have hshort : (shaStandard.hash text).length < 2 ^ 32 := hresult _
  have hsecondFits : ∀ call ∈ [Call.write (shaStandard.hash text)], Fits call := by
    intro call hcall
    obtain rfl := List.mem_singleton.mp hcall
    exact hshort.trans (by decide)
  have hsecond := hripemd.finalize_calls hmemory hsecondFits
    (show written [.write (shaStandard.hash text)] = some (shaStandard.hash text) from rfl)
    (by omega)
  rw [finalize, hfirst]
  exact hsecond

/-- `CHash256` and `CHash160` give the hash of the hash of what was written since the last
`Reset`. -/
theorem finalize_eq_twice (buf memory : List UInt8) (hbuf : buf.length = 64)
    (hmemory : memory.length = 64) (history : List Call) (hfits : ∀ call ∈ history, Fits call)
    (text : List UInt8) (hwritten : written history = some text)
    (hlength : 8 * text.length < 2 ^ 64) :
    (Hash256.finalize Sha256.csha256 (Hash256.calls Sha256.csha256 buf history)).1 =
        Fips180.sha256.standard.hash (Fips180.sha256.standard.hash text) ∧
      (Hash160.finalize Sha256.csha256 Ripemd160.cripemd160 memory
          (Sha256.csha256.calls buf history)).1 =
        Lib.Ripemd160.standard.hash (Fips180.sha256.standard.hash text) := by
  have hresult (state : Fin 8 → BitVec 32) :
      (Fips180.sha256.standard.output state).length < 2 ^ 32 := by
    have houtput : (Fips180.sha256.standard.output state).length = 32 :=
      Fips180.length_output state
    rw [houtput]
    decide
  exact ⟨Hash256.finalize_calls Sha256.follows hresult hbuf hfits hwritten hlength,
    Hash160.finalize_calls Sha256.follows Ripemd160.follows hresult hbuf hmemory hfits hwritten
      hlength⟩

theorem finalize_eq_twice_abc :
    (Hash256.finalize Sha256.csha256
        (Hash256.calls Sha256.csha256 (List.replicate 64 0)
          [.write [0], .finalize, .reset, .write [97], .write [98, 99]])).1 =
        Fips180.sha256.standard.hash (Fips180.sha256.standard.hash [97, 98, 99]) ∧
      (Hash160.finalize Sha256.csha256 Ripemd160.cripemd160 (List.replicate 64 0)
          (Sha256.csha256.calls (List.replicate 64 0)
            [.write [0], .finalize, .reset, .write [97], .write [98, 99]])).1 =
        Lib.Ripemd160.standard.hash (Fips180.sha256.standard.hash [97, 98, 99]) :=
  finalize_eq_twice _ _ rfl rfl _ (by simp [Fits]) _ rfl (by decide)

end Exc.Hash
