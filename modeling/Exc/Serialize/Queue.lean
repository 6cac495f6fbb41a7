import Exc.Serialize.RoundTrip

/-!
# Objects in a CDataStream

`operator<<` and `operator>>` of `CDataStream`, in any order of calls. The stream is a queue of
objects: whatever is written and read in between, the objects come out as they were put in
(`runCalls_eq`), and to read from an empty stream is an exception that changes nothing.

For the types without `bool`, maps and sets `operator>>` succeeds exactly if the stream starts with
the bytes of an object (`exec_unserialize_iff`). A vector with elements of more than 5000000 bytes
is never read, unless it is empty (`exec_unserialize_endless`).
-/

set_option autoImplicit false
set_option relaxedAutoImplicit false

namespace Exc.Serialize

open Lib ByteOrder

variable (platform : Platform)

/-- An object of a type. -/
abbrev Item : Type := Σ ty : Ty, ty.Value

/-- The bytes of an object. -/
def Item.code (item : Item) : List UInt8 := serialize platform item.1 item.2

/-- `operator<<` and `operator>>`. -/
inductive Call
  | put (item : Item)
  | get (ty : Ty)

namespace CDataStream

/-- `operator<<`. -/
def put (stream : CDataStream) (item : Item) : CDataStream := stream.write (item.code platform)

/-- A sequence of calls: what the calls of `operator>>` give, and the stream that is left. -/
def runCalls : List Call → CDataStream → List (Except Stop Item) × CDataStream
  | [], stream => ([], stream)
  | .put item :: calls, stream => runCalls calls (stream.put platform item)
  | .get ty :: calls, stream =>
    let result := (unserialize platform ty : Program CDataStream ty.Value).exec stream
    let rest := runCalls calls result.2
    (result.1.map (Sigma.mk ty) :: rest.1, rest.2)

end CDataStream

/-- The calls on a queue of objects. An object is read as what it was written. -/
def queueCalls : List Call → List Item → Option (List (Except Stop Item) × List Item)
  | [], queue => some ([], queue)
  | .put item :: calls, queue => queueCalls calls (queue ++ [item])
  | .get _ :: calls, [] =>
    (queueCalls calls []).map fun rest ↦
      (.error (.exception "CDataStream::read() : end of data") :: rest.1, rest.2)
  | .get ty :: calls, item :: queue =>
    if item.1 = ty then (queueCalls calls queue).map fun rest ↦ (.ok item :: rest.1, rest.2)
    else none

/-- The objects that are written. -/
def written (calls : List Call) : List Item :=
  calls.filterMap fun call ↦
    match call with
    | .put item => some item
    | .get _ => none

/-! ### The empty stream -/

theorem exec_bind_ok {σ α β : Type} {first : Program σ α} {next : α → Program σ β}
    {stream after : σ} {value : α} (hfirst : first.exec stream = (.ok value, after)) :
    (first >>= next).exec stream = (next value).exec after := by
  rw [exec_bind, hfirst]

theorem exec_bind_error {σ α β : Type} {first : Program σ α} {next : α → Program σ β}
    {stream after : σ} {stop : Stop} (hfirst : first.exec stream = (.error stop, after)) :
    (first >>= next).exec stream = (.error stop, after) := by
  rw [exec_bind, hfirst]

namespace CDataStream

/-- A stream with the failbit set. -/
def failed (stream : CDataStream) : CDataStream :=
  { stream with state := stream.state.union failbit }

variable {bound : ℕ}

theorem exec_readData_of_empty {stream : CDataStream} (hsound : Sound bound stream)
    (hbound : bound < 2 ^ 31) (hempty : stream.content = []) (order : ByteOrder) {count : ℕ}
    (hpos : 0 < count) (hcount : count < 2 ^ 31) :
    (readData order count : Program CDataStream ℕ).exec stream =
      (.error (.exception "CDataStream::read() : end of data"), stream.failed) := by
  have hlt : stream.content.length < count := by
    rw [hempty]
    exact hpos
  exact exec_bind_error (exec_read_of_lt hsound hbound hcount hlt)

/-- To read from an empty stream is an exception. By induction on the type: its first bytes are
missing. -/
theorem exec_unserialize_of_empty {stream : CDataStream} (hsound : Sound bound stream)
    (hbound : bound < 2 ^ 31) (hempty : stream.content = []) (ty : Ty) :
    (unserialize platform ty : Program CDataStream ty.Value).exec stream =
      (.error (.exception "CDataStream::read() : end of data"), stream.failed) := by
  have hdata {count : ℕ} (hpos : 0 < count) (hcount : count < 2 ^ 31) :=
    exec_readData_of_empty hsound hbound hempty platform.order hpos hcount
  have hsize : (readCompactSize platform.order : Program CDataStream ℕ).exec stream =
      (.error (.exception "CDataStream::read() : end of data"), stream.failed) :=
    exec_bind_error (hdata (by decide) (by decide))
  induction ty with
  | fundamental element =>
    exact exec_bind_error (hdata (by cases element <;> decide) (by cases element <;> decide))
  | bool => exact exec_bind_error (hdata (by decide) (by decide))
  | string | vectorFundamental _ | vector _ _ | map _ _ _ _ | set _ _ => exact exec_bind_error hsize
  | pair first second ih _ => exact exec_bind_error ih
  | tuple3 first second third ih _ _ => exact exec_bind_error ih
  | tuple4 first second third fourth ih _ _ _ => exact exec_bind_error ih

theorem Sound.failed {stream : CDataStream} (hsound : Sound bound stream) :
    Sound bound stream.failed :=
  ⟨hsound.length_le, hsound.excepts⟩

/-- An object is read from its bytes. -/
theorem exec_unserialize {stream : CDataStream} (hsound : Sound bound stream)
    (hbound : bound < 2 ^ 31) {item : Item} (hblocks : BlocksFit platform item.1)
    (hitem : Valid item.1 item.2) {rest : List UInt8}
    (hcontent : stream.content = item.code platform ++ rest) :
    ∃ after, (unserialize platform item.1 : Program CDataStream item.1.Value).exec stream =
      (.ok item.2, after) ∧ after.content = rest ∧ Sound bound after := by
  let _ := lawful hbound
  have hlimit : 2 ^ 26 ≤ LawfulByteStream.limit CDataStream := show 2 ^ 26 ≤ 2 ^ 31 by decide
  exact reads_unserialize platform hlimit item.1 hblocks item.2 hitem stream rest hsound hcontent

/-- A vector whose elements have more than 5000000 bytes each is never read. -/
theorem exec_unserialize_endless {stream : CDataStream} (hsound : Sound bound stream)
    (hbound : bound < 2 ^ 31) {element : Ty} (hlarge : 5000000 < platform.sizeof element)
    {nSize : ℕ} (hpos : 0 < nSize) (hmax : nSize ≤ MAX_SIZE) {rest : List UInt8}
    (hcontent : stream.content = writeCompactSize platform.order nSize ++ rest) :
    ∃ after, (unserialize platform (.vector element) :
      Program CDataStream (List element.Value)).exec stream = (.error .endless, after) := by
  let _ := lawful hbound
  have hlimit : 8 < LawfulByteStream.limit CDataStream := show 8 < 2 ^ 31 by decide
  obtain ⟨after, hexec, -⟩ :=
    reads_compactSize platform.order hmax hlimit stream rest hsound hcontent
  have hsteps : (readSteps (unserialize platform element : Program CDataStream element.Value)
      (5000000 / platform.sizeof element) nSize 0).exec after = (.error .endless, after) := by
    rw [readSteps, if_pos hpos, if_pos (Nat.div_eq_of_lt hlarge), exec_throw]
  exact ⟨after, (exec_bind_ok hexec).trans hsteps⟩

/-! ### Runs -/

theorem length_vch_put (stream : CDataStream) (item : Item) :
    (stream.put platform item).vch.length = stream.vch.length + (item.code platform).length := by
  change (stream.past ++ (stream.content ++ item.code platform)).length = _
  rw [← List.append_assoc, past_append_content, List.length_append]

theorem content_put (stream : CDataStream) (item : Item) :
    (stream.put platform item).content = stream.content ++ item.code platform :=
  content_withBuffer _ _ _

/-- The calls give what a queue of objects gives. By induction on the calls. -/
theorem runCalls_queue {calls : List Call} {stream : CDataStream} {queue left : List Item}
    {results : List (Except Stop Item)} (hsound : Sound bound stream)
    (hcontent : stream.content = queue.flatMap (Item.code platform))
    (hqueue : ∀ item ∈ queue, BlocksFit platform item.1 ∧ Valid item.1 item.2)
    (hwritten : ∀ item ∈ written calls, BlocksFit platform item.1 ∧ Valid item.1 item.2)
    (hbound : bound + ((written calls).flatMap (Item.code platform)).length < 2 ^ 31)
    (hcalls : queueCalls calls queue = some (results, left)) :
    (runCalls platform calls stream).1 = results ∧
      (runCalls platform calls stream).2.content = left.flatMap (Item.code platform) := by
  induction calls generalizing bound stream queue results with
  | nil =>
    obtain ⟨rfl, rfl⟩ := Prod.mk.inj (Option.some.inj hcalls)
    exact ⟨rfl, hcontent⟩
  | cons call calls ih =>
    cases call with
    | put item =>
      have hitems : written (.put item :: calls) = item :: written calls := rfl
      rw [hitems] at hwritten hbound
      obtain ⟨hitem, hrest⟩ := List.forall_mem_cons.mp hwritten
      rw [List.flatMap_cons, List.length_append] at hbound
      have hvch := length_vch_put platform stream item
      have hle := hsound.length_le
      have hput : Sound (bound + (item.code platform).length) (stream.put platform item) :=
        ⟨by omega, hsound.excepts⟩
      refine ih hput ?_ ?_ hrest (by omega) hcalls
      · rw [content_put, hcontent, List.flatMap_append, List.flatMap_singleton]
      · exact List.forall_mem_append.mpr ⟨hqueue, List.forall_mem_singleton.mpr hitem⟩
    | get ty =>
      have hsmall : bound < 2 ^ 31 := by omega
      cases queue with
      | nil =>
        obtain ⟨⟨results, left⟩, hrest, hpair⟩ := Option.map_eq_some_iff.mp hcalls
        obtain ⟨rfl, rfl⟩ := Prod.mk.inj hpair
        have hexec := exec_unserialize_of_empty platform hsound hsmall hcontent ty
        obtain ⟨hresults, hleft⟩ := ih hsound.failed hcontent hqueue hwritten hbound hrest
        rw [runCalls, hexec]
        exact ⟨congrArg _ hresults, hleft⟩
      | cons item queue =>
        obtain ⟨hitem, hrestQueue⟩ := List.forall_mem_cons.mp hqueue
        rw [queueCalls] at hcalls
        split_ifs at hcalls with hty
        subst hty
        obtain ⟨⟨results, left⟩, hrest, hpair⟩ := Option.map_eq_some_iff.mp hcalls
        obtain ⟨rfl, rfl⟩ := Prod.mk.inj hpair
        rw [List.flatMap_cons] at hcontent
        obtain ⟨after, hexec, hafter, hsoundAfter⟩ :=
          exec_unserialize platform hsound hsmall hitem.1 hitem.2 hcontent
        obtain ⟨hresults, hleft⟩ := ih hsoundAfter hafter hrestQueue hwritten hbound hrest
        rw [runCalls, hexec]
        exact ⟨congrArg _ hresults, hleft⟩

/-- Objects come out of a new stream as they were put in, in any order of calls that reads them as
what they are, as long as less than `2 ^ 31` bytes are written and no element of a vector has more
than 5000000 bytes; what is left are the bytes of the objects that are left, and reading from an
empty stream is an exception. -/
theorem runCalls_eq {calls : List Call} {left : List Item} {results : List (Except Stop Item)}
    (hwritten : ∀ item ∈ written calls, BlocksFit platform item.1 ∧ Valid item.1 item.2)
    (hlength : ((written calls).flatMap (Item.code platform)).length < 2 ^ 31)
    (hcalls : queueCalls calls [] = some (results, left)) :
    (runCalls platform calls (init [])).1 = results ∧
      (runCalls platform calls (init [])).2.content = left.flatMap (Item.code platform) := by
  have hsound : Sound 0 (init []) := ⟨Nat.le_refl 0, rfl⟩
  exact runCalls_queue platform hsound rfl (List.forall_mem_nil _) hwritten (by omega) hcalls

/-- For the types without `bool`, maps and sets an object is read exactly if the stream starts with
its bytes, and these are as many as `GetSerializeSize` says. -/
theorem exec_unserialize_iff {stream : CDataStream} (hsound : Sound bound stream)
    (hbound : bound < 2 ^ 31) {ty : Ty} (hcanonical : Canonical ty)
    (hblocks : BlocksFit platform ty) (value : ty.Value) (rest : List UInt8) :
    ((∃ after, (unserialize platform ty : Program CDataStream ty.Value).exec stream =
        (.ok value, after) ∧ after.content = rest) ↔
      Valid ty value ∧ stream.content = serialize platform ty value ++ rest) ∧
    (∀ after, (unserialize platform ty : Program CDataStream ty.Value).exec stream =
        (.ok value, after) →
      stream.content.length = getSerializeSize ty value + after.content.length) := by
  let _ := lawful hbound
  have hlimit : 2 ^ 26 ≤ LawfulByteStream.limit CDataStream := show 2 ^ 26 ≤ 2 ^ 31 by decide
  have htakes (after : CDataStream)
      (hexec : (unserialize platform ty : Program CDataStream ty.Value).exec stream =
        (.ok value, after)) :
      Valid ty value ∧ stream.content = serialize platform ty value ++ after.content := by
    obtain ⟨bytes, ⟨rfl, hvalid⟩, hcontent, -⟩ :=
      takes_unserialize platform hlimit ty hcanonical stream after value hsound hexec
    exact ⟨hvalid, hcontent⟩
  refine ⟨⟨?_, ?_⟩, ?_⟩
  · rintro ⟨after, hexec, rfl⟩
    exact htakes after hexec
  · rintro ⟨hvalid, hcontent⟩
    have hitem : Valid (⟨ty, value⟩ : Item).1 (⟨ty, value⟩ : Item).2 := hvalid
    obtain ⟨after, hexec, hafter, -⟩ :=
      exec_unserialize platform hsound hbound hblocks hitem hcontent
    exact ⟨after, hexec, hafter⟩
  · intro after hexec
    have hlength := congrArg List.length (htakes after hexec).2
    have hsize := getSerializeSize_eq platform ty value
    have hle := hsound.length_le
    have hcontent := stream.length_content
    rw [List.length_append] at hlength
    rw [Nat.mod_eq_of_lt (by omega)] at hsize
    omega

/-- A vector of strings and a map are written, and the vector and more than that is read. -/
theorem runCalls_eq_string :
    (runCalls littlePlatform [.put ⟨.vector .string, [[0x61], []]⟩, .get (.vector .string),
        .get .bool, .put ⟨.map .bool .string, [(false, []), (true, [0x62])]⟩] (init [])).1 =
        [.ok ⟨.vector .string, [[0x61], []]⟩,
          .error (.exception "CDataStream::read() : end of data")] ∧
      (runCalls littlePlatform [.put ⟨.vector .string, [[0x61], []]⟩, .get (.vector .string),
        .get .bool, .put ⟨.map .bool .string, [(false, []), (true, [0x62])]⟩] (init [])).2.content =
        [(⟨.map .bool .string, [(false, []), (true, [0x62])]⟩ : Item)].flatMap
          (Item.code littlePlatform) := by
  have hempty : Valid .string [] := show 0 ≤ MAX_SIZE by decide
  have hfirst : Valid .string [0x61] := show 1 ≤ MAX_SIZE by decide
  have hlast : Valid .string [0x62] := show 1 ≤ MAX_SIZE by decide
  have hvector : Valid (.vector .string) [[0x61], []] :=
    ⟨show 2 ≤ MAX_SIZE by decide,
      List.forall_mem_cons.mpr ⟨hfirst, List.forall_mem_singleton.mpr hempty⟩⟩
  have hmap : Valid (.map .bool .string) [(false, []), (true, [0x62])] :=
    ⟨show 2 ≤ MAX_SIZE by decide, .cons (List.forall_mem_singleton.mpr rfl) (.cons nofun .nil),
      List.forall_mem_cons.mpr ⟨⟨trivial, hempty⟩, List.forall_mem_singleton.mpr ⟨trivial, hlast⟩⟩⟩
  have hblocks : BlocksFit littlePlatform (.vector .string) :=
    ⟨show 32 ≤ 5000000 by decide, trivial⟩
  exact runCalls_eq littlePlatform (List.forall_mem_cons.mpr ⟨⟨hblocks, hvector⟩,
    List.forall_mem_singleton.mpr ⟨⟨trivial, trivial⟩, hmap⟩⟩) (by decide) rfl

/-- A vector of one string of one character, with something behind it. -/
theorem exec_unserialize_iff_string :
    ((∃ after, (unserialize littlePlatform (.vector .string) :
        Program CDataStream (List (List UInt8))).exec (init [1, 1, 0x61, 0x62]) =
          (.ok [[0x61]], after) ∧ after.content = [0x62]) ↔
      Valid (.vector .string) [[0x61]] ∧ (init [1, 1, 0x61, 0x62]).content =
        serialize littlePlatform (.vector .string) [[0x61]] ++ [0x62]) ∧
    (∀ after, (unserialize littlePlatform (.vector .string) :
        Program CDataStream (List (List UInt8))).exec (init [1, 1, 0x61, 0x62]) =
          (.ok [[0x61]], after) →
      (init [1, 1, 0x61, 0x62]).content.length =
        getSerializeSize (.vector .string) [[0x61]] + after.content.length) :=
  exec_unserialize_iff littlePlatform
    (show Sound 4 (init [1, 1, 0x61, 0x62]) from ⟨by decide, rfl⟩) (by decide)
    (show Canonical (.vector .string) from trivial)
    (show BlocksFit littlePlatform (.vector .string) from ⟨show 32 ≤ 5000000 by decide, trivial⟩)
    [[0x61]] [0x62]

end CDataStream

end Exc.Serialize
