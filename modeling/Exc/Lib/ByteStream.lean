import Mathlib.Data.UInt

/-!
# Streams of bytes

A stream that gives a number of its bytes at a time or fails (`ByteStream`), with the laws that make
it a queue of bytes (`LawfulByteStream`), and programs that read from one.

`Reads` says that a program takes given bytes and gives a value, `Takes` that whatever it takes are
the bytes of its value. Both are proved along the program (`Reads.bind`, `Takes.bind`), so that the
program of a format is compared with the bytes of the format piece by piece.
-/

set_option autoImplicit false
set_option relaxedAutoImplicit false

namespace Exc.Lib

/-- How a program stops without a value: by an exception, or in a loop that never ends. -/
inductive Stop
  | exception (message : String)
  | endless
  deriving DecidableEq, Repr

/-- A program on a stream that can stop without a value; the stream stays as it is then. -/
abbrev Program (σ α : Type) := ExceptT Stop (StateM σ) α

/-- Runs a program. -/
def Program.exec {σ α : Type} (program : Program σ α) (stream : σ) : Except Stop α × σ :=
  program.run.run stream

/-- A stream that bytes are read from. -/
class ByteStream (σ : Type) where
  read : ℕ → Program σ (List UInt8)

/-- A stream that is a queue of bytes, in its sound states and for reads below a limit. -/
class LawfulByteStream (σ : Type) extends ByteStream σ where
  pending : σ → List UInt8
  Sound : σ → Prop
  limit : ℕ
  read_of_le : ∀ {stream : σ} {count : ℕ}, Sound stream → count < limit →
    count ≤ (pending stream).length → ∃ after,
      (read count).exec stream = (.ok ((pending stream).take count), after) ∧
        pending after = (pending stream).drop count ∧ Sound after
  read_of_lt : ∀ {stream : σ} {count : ℕ}, Sound stream → count < limit →
    (pending stream).length < count → ∃ stop after,
      (read count).exec stream = (.error stop, after)

variable {σ α β : Type}

theorem exec_pure (value : α) (stream : σ) :
    Program.exec (pure value : Program σ α) stream = (.ok value, stream) := rfl

theorem exec_throw (stop : Stop) (stream : σ) :
    Program.exec (throw stop : Program σ α) stream = (.error stop, stream) := rfl

theorem exec_get (stream : σ) : Program.exec (get : Program σ σ) stream = (.ok stream, stream) :=
  rfl

theorem exec_set (after stream : σ) :
    Program.exec (set after : Program σ PUnit) stream = (.ok PUnit.unit, after) := rfl

theorem exec_bind (first : Program σ α) (next : α → Program σ β) (stream : σ) :
    (first >>= next).exec stream =
      match first.exec stream with
      | (.ok value, after) => (next value).exec after
      | (.error stop, after) => (.error stop, after) := by
  change (match (first.run.run stream) with
    | (result, after) => (ExceptT.bindCont next result).run after) = _
  match hfirst : first.exec stream with
  | (.ok value, after) =>
    rw [Program.exec] at hfirst
    rw [hfirst]
    rfl
  | (.error stop, after) =>
    rw [Program.exec] at hfirst
    rw [hfirst]
    rfl

/-! ### What a program reads -/

section

variable [LawfulByteStream σ]

open ByteStream LawfulByteStream

/-- From a queue that starts with the bytes the program takes them and gives the value. -/
def Reads (program : Program σ α) (bytes : List UInt8) (value : α) : Prop :=
  ∀ stream rest, Sound stream → pending stream = bytes ++ rest →
    ∃ after, program.exec stream = (.ok value, after) ∧ pending after = rest ∧ Sound after

/-- A program that succeeds has taken bytes of its value. -/
def Takes (program : Program σ α) (Codes : α → List UInt8 → Prop) : Prop :=
  ∀ stream after value, Sound stream → program.exec stream = (.ok value, after) →
    ∃ bytes, Codes value bytes ∧ pending stream = bytes ++ pending after ∧ Sound after

theorem Reads.pure (value : α) : Reads (Pure.pure value : Program σ α) [] value :=
  fun stream _ hsound hpending ↦ ⟨stream, exec_pure value stream, hpending, hsound⟩

theorem Reads.bind {first : Program σ α} {next : α → Program σ β} {front back : List UInt8}
    {between : α} {value : β} (hfirst : Reads first front between)
    (hnext : Reads (next between) back value) : Reads (first >>= next) (front ++ back) value := by
  intro stream rest hsound hpending
  rw [List.append_assoc] at hpending
  obtain ⟨middle, hexec, hmiddle, hsoundMiddle⟩ := hfirst stream (back ++ rest) hsound hpending
  obtain ⟨after, hafter, hrest, hsoundAfter⟩ := hnext middle rest hsoundMiddle hmiddle
  refine ⟨after, ?_, hrest, hsoundAfter⟩
  rw [exec_bind, hexec]
  exact hafter

/-- A program that goes on with what it has read. -/
theorem Reads.map {first : Program σ α} {bytes : List UInt8} {between : α} (next : α → β)
    (hfirst : Reads first bytes between) :
    Reads (first >>= fun value ↦ Pure.pure (next value)) bytes (next between) := by
  have hbind : Reads (first >>= fun value ↦ Pure.pure (next value)) (bytes ++ []) (next between) :=
    hfirst.bind (Reads.pure _)
  rwa [List.append_nil] at hbind

theorem Reads.read {bytes : List UInt8} (hlimit : bytes.length < limit σ) :
    Reads (ByteStream.read bytes.length : Program σ (List UInt8)) bytes bytes := by
  intro stream rest hsound hpending
  have hle : bytes.length ≤ (pending stream).length := by
    rw [hpending, List.length_append]
    exact Nat.le_add_right _ _
  obtain ⟨after, hexec, hrest, hafter⟩ := read_of_le hsound hlimit hle
  rw [hpending, List.take_left] at hexec
  rw [hpending, List.drop_left] at hrest
  exact ⟨after, hexec, hrest, hafter⟩

theorem Takes.pure {Codes : α → List UInt8 → Prop} {value : α} (hvalue : Codes value []) :
    Takes (Pure.pure value : Program σ α) Codes := by
  intro stream after found hsound hexec
  obtain ⟨hfound, rfl⟩ := Prod.mk.inj ((exec_pure value stream).symm.trans hexec)
  obtain rfl := Except.ok.inj hfound
  exact ⟨[], hvalue, rfl, hsound⟩

theorem Takes.throw (stop : Stop) (Codes : α → List UInt8 → Prop) :
    Takes (throw stop : Program σ α) Codes := by
  intro stream after value hsound hexec
  cases ((exec_throw stop stream).symm.trans hexec)

theorem Takes.bind {first : Program σ α} {next : α → Program σ β}
    {Front : α → List UInt8 → Prop} {Codes : β → List UInt8 → Prop} (hfirst : Takes first Front)
    (hnext : ∀ between front, Front between front →
      Takes (next between) fun value back ↦ Codes value (front ++ back)) :
    Takes (first >>= next) Codes := by
  intro stream after value hsound hexec
  rw [exec_bind] at hexec
  match hmiddle : first.exec stream with
  | (.error stop, middle) =>
    rw [hmiddle] at hexec
    cases hexec
  | (.ok between, middle) =>
    rw [hmiddle] at hexec
    obtain ⟨front, hfront, hstream, hsoundMiddle⟩ := hfirst stream middle between hsound hmiddle
    obtain ⟨back, hcodes, hrest, hafter⟩ := hnext between front hfront middle after value
      hsoundMiddle hexec
    exact ⟨front ++ back, hcodes, by rw [hstream, hrest, List.append_assoc], hafter⟩

theorem Takes.mono {program : Program σ α} {Codes Wider : α → List UInt8 → Prop}
    (htakes : Takes program Codes) (hmono : ∀ value bytes, Codes value bytes → Wider value bytes) :
    Takes program Wider := by
  intro stream after value hsound hexec
  obtain ⟨bytes, hcodes, hstream, hafter⟩ := htakes stream after value hsound hexec
  exact ⟨bytes, hmono value bytes hcodes, hstream, hafter⟩

theorem Takes.read {count : ℕ} (hlimit : count < limit σ) :
    Takes (ByteStream.read count : Program σ (List UInt8)) fun value bytes ↦
      value = bytes ∧ bytes.length = count := by
  intro stream after value hsound hexec
  by_cases hle : count ≤ (pending stream).length
  · obtain ⟨found, hread, hrest, hfound⟩ := read_of_le hsound hlimit hle
    obtain ⟨hvalue, rfl⟩ := Prod.mk.inj (hread.symm.trans hexec)
    obtain rfl := Except.ok.inj hvalue
    refine ⟨_, ⟨rfl, List.length_take_of_le hle⟩, ?_, hfound⟩
    rw [hrest, List.take_append_drop]
  · obtain ⟨stop, found, hread⟩ := read_of_lt hsound hlimit (Nat.lt_of_not_le hle)
    cases hread.symm.trans hexec

end

end Exc.Lib
