import Exc.Lib.JsonText
import Mathlib.Data.List.Chain

/-!
# JSON values

A JSON value and the tokens that stand for it, as RFC 8259 has them, and an automaton that builds
the value from the tokens one after the other. The automaton keeps the containers that are open
(`Frame`), from the innermost one on.

It accepts what the grammar has and nothing more: from the start it gets to a value exactly by the
tokens of that value (`run_eq_done_iff`). A run never takes two numbers one after the other
(`run_separated`), which is what makes the texts of its tokens unique.
-/

set_option autoImplicit false
set_option relaxedAutoImplicit false

namespace Exc.Lib.JsonText

/-- A value. The members of an object are in order, and a key can be there more than once. -/
inductive Value
  | null
  | bool (value : Bool)
  | number (text : List UInt8) (hnumber : IsNumber text)
  | string (value : List UInt8)
  | array (items : List Value)
  | object (members : List (List UInt8 × Value))

/-- Pieces with commas between them. -/
def joined (pieces : List (List Token)) : List Token := [Token.comma].intercalate pieces

/-- Pieces with a comma behind each of them. -/
def followed (pieces : List (List Token)) : List Token :=
  pieces.flatMap fun piece ↦ piece ++ [Token.comma]

mutual

def tokens : Value → List Token
  | .null => [.kwNull]
  | .bool value => [if value then .kwTrue else .kwFalse]
  | .number text hnumber => [.number text hnumber]
  | .string value => [.string value]
  | .array items => .arrOpen :: (joined (itemPieces items) ++ [.arrClose])
  | .object members => .objOpen :: (joined (memberPieces members) ++ [.objClose])

/-- The tokens of every item. -/
def itemPieces : List Value → List (List Token)
  | [] => []
  | item :: items => tokens item :: itemPieces items

/-- The tokens of every member. -/
def memberPieces : List (List UInt8 × Value) → List (List Token)
  | [] => []
  | (key, value) :: members => (.string key :: .colon :: tokens value) :: memberPieces members

end

/-- One more piece behind the others. -/
theorem joined_append_singleton (pieces : List (List Token)) (piece : List Token) :
    joined (pieces ++ [piece]) = followed pieces ++ piece := by
  induction pieces with
  | nil => exact List.intercalate_singleton
  | cons first pieces ih =>
    have hne : pieces ++ [piece] ≠ [] := List.append_ne_nil_of_right_ne_nil _ (List.cons_ne_nil _ _)
    rw [List.cons_append, joined, List.intercalate_cons_of_ne_nil hne, ← joined, ih, followed,
      followed, List.flatMap_cons]
    simp only [List.append_assoc]

theorem followed_append_singleton (pieces : List (List Token)) (piece : List Token) :
    followed (pieces ++ [piece]) = followed pieces ++ piece ++ [.comma] := by
  simp only [followed, List.flatMap_append, List.flatMap_singleton, List.append_assoc]

theorem itemPieces_append (items : List Value) (item : Value) :
    itemPieces (items ++ [item]) = itemPieces items ++ [tokens item] := by
  induction items with
  | nil => rfl
  | cons first items ih => rw [List.cons_append, itemPieces, ih, itemPieces, List.cons_append]

theorem memberPieces_append (members : List (List UInt8 × Value)) (key : List UInt8)
    (value : Value) :
    memberPieces (members ++ [(key, value)]) =
      memberPieces members ++ [.string key :: .colon :: tokens value] := by
  induction members with
  | nil => rfl
  | cons first members ih =>
    rw [List.cons_append, memberPieces, ih, memberPieces, List.cons_append]

/-! ### The automaton -/

/-- A container that is open, with what it has so far: the items of an array, or the members of an
object and the key of the member that is being read. -/
inductive Frame
  | array (items : List Value)
  | object (members : List (List UInt8 × Value)) (key : List UInt8)

/-- What may come next, in the containers that are open. -/
inductive State
  | start
  | item (items : List Value) (below : List Frame)
  | behindItem (items : List Value) (last : Value) (below : List Frame)
  | name (members : List (List UInt8 × Value)) (below : List Frame)
  | colon (members : List (List UInt8 × Value)) (key : List UInt8) (below : List Frame)
  | value (members : List (List UInt8 × Value)) (key : List UInt8) (below : List Frame)
  | behindMember (members : List (List UInt8 × Value)) (key : List UInt8) (last : Value)
      (below : List Frame)
  | done (value : Value)

/-- The state behind a value. -/
def put (value : Value) : List Frame → State
  | [] => .done value
  | .array items :: below => .behindItem items value below
  | .object members key :: below => .behindMember members key value below

/-- The state in front of a value. -/
def expecting : List Frame → State
  | [] => .start
  | .array items :: below => .item items below
  | .object members key :: below => .value members key below

/-- The first token of a value. -/
def takeValue (below : List Frame) : Token → Option State
  | .objOpen => some (.name [] below)
  | .arrOpen => some (.item [] below)
  | .kwNull => some (put .null below)
  | .kwTrue => some (put (.bool true) below)
  | .kwFalse => some (put (.bool false) below)
  | .number text hnumber => some (put (.number text hnumber) below)
  | .string value => some (put (.string value) below)
  | _ => none

def step : State → Token → Option State
  | .start, token => takeValue [] token
  | .item [] below, .arrClose => some (put (.array []) below)
  | .item items below, token => takeValue (.array items :: below) token
  | .behindItem items last below, .comma => some (.item (items ++ [last]) below)
  | .behindItem items last below, .arrClose => some (put (.array (items ++ [last])) below)
  | .name members below, .string key => some (.colon members key below)
  | .name [] below, .objClose => some (put (.object []) below)
  | .colon members key below, .colon => some (.value members key below)
  | .value members key below, token => takeValue (.object members key :: below) token
  | .behindMember members key last below, .comma => some (.name (members ++ [(key, last)]) below)
  | .behindMember members key last below, .objClose =>
    some (put (.object (members ++ [(key, last)])) below)
  | _, _ => none

def run (state : State) (input : List Token) : Option State := input.foldlM step state

/-! ### What is accepted is a value -/

def frameTokens : Frame → List Token
  | .array items => .arrOpen :: followed (itemPieces items)
  | .object members key => .objOpen :: (followed (memberPieces members) ++ [.string key, .colon])

/-- The tokens of the containers that are open. -/
def belowTokens : List Frame → List Token
  | [] => []
  | frame :: below => belowTokens below ++ frameTokens frame

/-- The tokens that lead to a state. -/
def consumed : State → List Token
  | .start => []
  | .item items below => belowTokens (.array items :: below)
  | .behindItem items last below => belowTokens (.array items :: below) ++ tokens last
  | .name members below => belowTokens below ++ .objOpen :: followed (memberPieces members)
  | .colon members key below =>
    belowTokens below ++ .objOpen :: (followed (memberPieces members) ++ [.string key])
  | .value members key below => belowTokens (.object members key :: below)
  | .behindMember members key last below =>
    belowTokens (.object members key :: below) ++ tokens last
  | .done value => tokens value

theorem consumed_put (value : Value) (below : List Frame) :
    consumed (put value below) = belowTokens below ++ tokens value := by
  match below with
  | [] => rfl
  | .array items :: below => rfl
  | .object members key :: below => rfl

theorem consumed_takeValue {below : List Frame} {token : Token} {state : State}
    (htake : takeValue below token = some state) :
    consumed state = belowTokens below ++ [token] := by
  cases token with
  | objOpen =>
    obtain rfl := Option.some.inj htake
    rfl
  | arrOpen =>
    obtain rfl := Option.some.inj htake
    rfl
  | objClose => cases htake
  | arrClose => cases htake
  | colon => cases htake
  | comma => cases htake
  | kwNull =>
    obtain rfl := Option.some.inj htake
    rw [consumed_put, tokens]
  | kwTrue =>
    obtain rfl := Option.some.inj htake
    rw [consumed_put, tokens, if_pos rfl]
  | kwFalse =>
    obtain rfl := Option.some.inj htake
    rw [consumed_put, tokens, if_neg Bool.false_ne_true]
  | number text hnumber =>
    obtain rfl := Option.some.inj htake
    rw [consumed_put, tokens]
  | string value =>
    obtain rfl := Option.some.inj htake
    rw [consumed_put, tokens]

/-- A step takes one token more. -/
theorem consumed_step {state after : State} {token : Token} :
    step state token = some after → consumed after = consumed state ++ [token] := by
  fun_cases step state token with
  | case1 => exact consumed_takeValue
  | case2 below =>
    rintro ⟨⟩
    rw [consumed_put, consumed, belowTokens, List.append_assoc]
    rfl
  | case3 token items below hclose => exact consumed_takeValue
  | case4 items last below =>
    rintro ⟨⟩
    simp only [consumed, belowTokens, frameTokens, itemPieces_append, followed_append_singleton,
      List.append_assoc, List.cons_append]
  | case5 items last below =>
    rintro ⟨⟩
    rw [consumed_put]
    simp only [consumed, belowTokens, frameTokens, tokens, itemPieces_append,
      joined_append_singleton, List.append_assoc, List.cons_append]
  | case6 members below key =>
    rintro ⟨⟩
    simp only [consumed, List.append_assoc, List.cons_append]
  | case7 below =>
    rintro ⟨⟩
    rw [consumed_put, consumed, List.append_assoc]
    rfl
  | case8 members key below =>
    rintro ⟨⟩
    simp only [consumed, belowTokens, frameTokens, List.append_assoc, List.cons_append,
      List.nil_append]
  | case9 token members key below => exact consumed_takeValue
  | case10 members key last below =>
    rintro ⟨⟩
    simp only [consumed, belowTokens, frameTokens, memberPieces_append, followed_append_singleton,
      List.append_assoc, List.cons_append, List.nil_append]
  | case11 members key last below =>
    rintro ⟨⟩
    rw [consumed_put]
    simp only [consumed, belowTokens, frameTokens, tokens, memberPieces_append,
      joined_append_singleton, List.append_assoc, List.cons_append, List.nil_append]
  | case12 => rintro ⟨⟩

/-- A run takes its tokens. -/
theorem consumed_run {state after : State} {input : List Token}
    (hrun : run state input = some after) : consumed after = consumed state ++ input := by
  induction input generalizing state with
  | nil =>
    obtain rfl := Option.some.inj hrun
    rw [List.append_nil]
  | cons token input ih =>
    obtain ⟨between, hstep, hrun⟩ := Option.bind_eq_some_iff.mp hrun
    rw [ih hrun, consumed_step hstep, List.append_assoc, List.singleton_append]

/-! ### A value is accepted -/

theorem run_cons_of_step {state between : State} {token : Token}
    (hstep : step state token = some between) (input : List Token) :
    run state (token :: input) = run between input := by
  rw [run, List.foldlM_cons, hstep]
  rfl

/-- In front of a value its first token is taken. -/
theorem step_expecting {below : List Frame} {token : Token} {state : State}
    (htake : takeValue below token = some state) : step (expecting below) token = some state := by
  match below, token with
  | [], token => exact htake
  | .object members key :: below, token => exact htake
  | .array items :: below, .arrClose => cases htake
  | .array [] :: below, .objOpen | .array [] :: below, .arrOpen | .array [] :: below, .kwNull
  | .array [] :: below, .kwTrue | .array [] :: below, .kwFalse
  | .array [] :: below, .number _ _ | .array [] :: below, .string _ => exact htake
  | .array [] :: below, .objClose | .array [] :: below, .colon
  | .array [] :: below, .comma => cases htake
  | .array (_ :: _) :: below, token => exact htake

theorem joined_cons_cons (first second : List Token) (pieces : List (List Token)) :
    joined (first :: second :: pieces) = first ++ .comma :: joined (second :: pieces) := by
  rw [joined, List.intercalate_cons_cons, List.append_assoc]
  rfl

mutual

/-- The tokens of a value lead behind the value. By induction on the value. -/
theorem run_tokens (value : Value) (below : List Frame) (rest : List Token) :
    run (expecting below) (tokens value ++ rest) = run (put value below) rest := by
  match value with
  | .null => exact run_cons_of_step (step_expecting rfl) rest
  | .bool true => exact run_cons_of_step (step_expecting rfl) rest
  | .bool false => exact run_cons_of_step (step_expecting rfl) rest
  | .number text hnumber => exact run_cons_of_step (step_expecting rfl) rest
  | .string value => exact run_cons_of_step (step_expecting rfl) rest
  | .array items =>
    have hopen : run (expecting below) (tokens (.array items) ++ rest) =
        run (.item [] below) (joined (itemPieces items) ++ .arrClose :: rest) := by
      rw [tokens, List.cons_append, List.append_assoc]
      exact run_cons_of_step (step_expecting rfl) _
    rw [hopen]
    match items with
    | [] => rfl
    | item :: items => exact run_items (item :: items) (List.cons_ne_nil _ _) [] below rest
  | .object members =>
    have hopen : run (expecting below) (tokens (.object members) ++ rest) =
        run (.name [] below) (joined (memberPieces members) ++ .objClose :: rest) := by
      rw [tokens, List.cons_append, List.append_assoc]
      exact run_cons_of_step (step_expecting rfl) _
    rw [hopen]
    match members with
    | [] => rfl
    | member :: members =>
      exact run_members (member :: members) (List.cons_ne_nil _ _) [] below rest

theorem run_items (items : List Value) (hne : items ≠ []) (before : List Value)
    (below : List Frame) (rest : List Token) :
    run (.item before below) (joined (itemPieces items) ++ .arrClose :: rest) =
      run (put (.array (before ++ items)) below) rest := by
  match items with
  | [item] =>
    rw [itemPieces, itemPieces, joined, List.intercalate_singleton]
    exact run_tokens item (.array before :: below) (.arrClose :: rest)
  | item :: next :: items =>
    have hitem := run_tokens item (.array before :: below)
      (.comma :: (joined (itemPieces (next :: items)) ++ .arrClose :: rest))
    have hnext := run_items (next :: items) (List.cons_ne_nil _ _) (before ++ [item]) below rest
    rw [List.append_assoc, List.singleton_append] at hnext
    rw [itemPieces, itemPieces, joined_cons_cons, ← itemPieces, List.append_assoc, ← hnext]
    exact hitem

theorem run_members (members : List (List UInt8 × Value)) (hne : members ≠ [])
    (before : List (List UInt8 × Value)) (below : List Frame) (rest : List Token) :
    run (.name before below) (joined (memberPieces members) ++ .objClose :: rest) =
      run (put (.object (before ++ members)) below) rest := by
  match members with
  | [(key, value)] =>
    rw [memberPieces, memberPieces, joined, List.intercalate_singleton]
    exact run_tokens value (.object before key :: below) (.objClose :: rest)
  | (key, value) :: next :: members =>
    have hmember := run_tokens value (.object before key :: below)
      (.comma :: (joined (memberPieces (next :: members)) ++ .objClose :: rest))
    have hnext := run_members (next :: members) (List.cons_ne_nil _ _) (before ++ [(key, value)])
      below rest
    rw [List.append_assoc, List.singleton_append] at hnext
    rw [memberPieces, memberPieces, joined_cons_cons, ← memberPieces, List.append_assoc, ← hnext]
    exact hmember

end

/-- From the start exactly the tokens of a value lead to it. -/
theorem run_eq_done_iff {input : List Token} {value : Value} :
    run .start input = some (.done value) ↔ input = tokens value := by
  constructor
  · intro hrun
    have hconsumed : tokens value = [] ++ input := consumed_run hrun
    rw [hconsumed, List.nil_append]
  · rintro rfl
    have hrun := run_tokens value [] []
    rw [List.append_nil] at hrun
    exact hrun

/-! ### Numbers -/

/-- Behind a value no number is taken. -/
theorem step_put_number (value : Value) (below : List Frame) (text : List UInt8)
    (hnumber : IsNumber text) : step (put value below) (.number text hnumber) = none := by
  match below with
  | [] => rfl
  | .array items :: below => rfl
  | .object members key :: below => rfl

/-- A number leads behind a value. -/
theorem exists_put_of_step_number {state after : State} {text : List UInt8}
    {hnumber : IsNumber text} :
    step state (.number text hnumber) = some after → ∃ value below, after = put value below := by
  match state with
  | .start | .item [] _ | .item (_ :: _) _ | .value _ _ _ =>
    rintro ⟨⟩
    exact ⟨_, _, rfl⟩
  | .behindItem _ _ _ | .name [] _ | .name (_ :: _) _ | .colon _ _ _ | .behindMember _ _ _ _
  | .done _ => rintro ⟨⟩

/-- A run does not take a number behind a number. -/
theorem run_separated {state after : State} {input : List Token}
    (hrun : run state input = some after) : input.IsChain Separated := by
  induction input generalizing state with
  | nil => exact .nil
  | cons token input ih =>
    obtain ⟨between, hstep, hrest⟩ := Option.bind_eq_some_iff.mp hrun
    refine (ih hrest).cons fun next hnext ↦ ?_
    rintro text hnumber nextText hnextNumber rfl rfl
    obtain ⟨value, below, rfl⟩ := exists_put_of_step_number hstep
    obtain ⟨tail, rfl⟩ := List.head?_eq_some_iff.mp hnext
    obtain ⟨after, hafter, -⟩ := Option.bind_eq_some_iff.mp hrest
    cases (step_put_number value below nextText hnextNumber).symm.trans hafter

end Exc.Lib.JsonText
