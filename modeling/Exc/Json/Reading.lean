import Exc.Json.Lexing
import Exc.Lib.JsonValue
import Mathlib.Data.Option.Defs

/-!
# Reading a text

`read` against the grammar of JSON. The variables of the loop are those of the automaton that takes
the tokens of a value (`Represents`, `readToken_sim`): the containers that are open are on the
stack, each with what it has so far, and `expectMask` says what may come next.

`read` succeeds exactly on the texts of objects and arrays, as far as all bytes are below 0x80, and
the value is the one that the text stands for (`read_eq_true_iff`).
-/

set_option autoImplicit false
set_option relaxedAutoImplicit false

namespace Exc.Json

open Lib JsonText

/-! ### Values -/

mutual

/-- The `UniValue` of a value. -/
def ofValue : Value → UniValue
  | .null => .empty
  | .bool value => .setBool value
  | .number text _ => .ofType .num text
  | .string value => .ofType .str value
  | .array items => ⟨.arr, [], [], ofItems items⟩
  | .object members => ⟨.obj, [], members.map Prod.fst, ofMembers members⟩

def ofItems : List Value → List UniValue
  | [] => []
  | item :: items => ofValue item :: ofItems items

def ofMembers : List (List UInt8 × Value) → List UniValue
  | [] => []
  | (_, value) :: members => ofValue value :: ofMembers members

end

theorem ofItems_append (items : List Value) (item : Value) :
    ofItems (items ++ [item]) = ofItems items ++ [ofValue item] := by
  induction items with
  | nil => rfl
  | cons first items ih => rw [List.cons_append, ofItems, ih, ofItems, List.cons_append]

theorem ofMembers_append (members : List (List UInt8 × Value)) (key : List UInt8) (value : Value) :
    ofMembers (members ++ [(key, value)]) = ofMembers members ++ [ofValue value] := by
  induction members with
  | nil => rfl
  | cons first members ih => rw [List.cons_append, ofMembers, ih, ofMembers, List.cons_append]

/-- An object or an array. -/
def IsContainer : Value → Prop
  | .array _ | .object _ => True
  | _ => False

/-! ### The stack -/

theorem modifyLast_append (f : UniValue → UniValue) (values : List UniValue) (value : UniValue) :
    modifyLast f (values ++ [value]) = values ++ [f value] := by
  induction values with
  | nil => rfl
  | cons first values ih =>
    have hne : values ++ [value] ≠ [] := List.append_ne_nil_of_right_ne_nil _ (List.cons_ne_nil _ _)
    obtain ⟨second, rest, heq⟩ := List.exists_cons_of_ne_nil hne
    rw [List.cons_append, heq, modifyLast, ← heq, ih, List.cons_append]
    exact fun hnil ↦ List.cons_ne_nil _ _ hnil

/-- A value with one more element of `values`. -/
def addValue (value : UniValue) (top : UniValue) : UniValue :=
  { top with values := top.values ++ [value] }

/-- The place of the element that `addValue` adds is one more. -/
theorem modifyBack_succ (place : ℕ) (f : UniValue → UniValue) :
    ∀ value, modifyBack (place + 1) f value = modifyBack place (modifyBack 1 f) value := by
  induction place with
  | zero => exact fun value ↦ rfl
  | succ place ih =>
    intro value
    rw [modifyBack, funext ih]
    rfl

theorem back_succ (place : ℕ) :
    ∀ value, back (place + 1) value = (back place value).bind (back 1) := by
  induction place with
  | zero => exact fun value ↦ rfl
  | succ place ih =>
    intro value
    change value.values.getLast?.bind (back (place + 1)) =
      (value.values.getLast?.bind (back place)).bind (back 1)
    rw [funext ih, Option.bind_assoc]

/-- A container that is open, without the value that is being read. -/
def ofFrame : Frame → UniValue
  | .array items => ⟨.arr, [], [], ofItems items⟩
  | .object members key => ⟨.obj, [], members.map Prod.fst ++ [key], ofMembers members⟩

/-- A value in the containers that are open. -/
def plug : List Frame → UniValue → UniValue
  | [], value => value
  | frame :: below, value => plug below (addValue value (ofFrame frame))

theorem modifyBack_plug (below : List Frame) (f : UniValue → UniValue) (value : UniValue) :
    modifyBack below.length f (plug below value) = plug below (f value) := by
  induction below generalizing f value with
  | nil => rfl
  | cons frame below ih =>
    rw [List.length_cons, modifyBack_succ, plug, ih, plug, modifyBack, addValue, modifyLast_append]
    rfl

theorem back_plug (below : List Frame) (value : UniValue) :
    back below.length (plug below value) = some value := by
  induction below generalizing value with
  | nil => rfl
  | cons frame below ih =>
    rw [List.length_cons, back_succ, plug, ih, Option.bind_some, back, addValue,
      List.getLast?_concat]
    rfl

/-! ### The variables of the loop -/

/-- The containers in which the innermost one is. -/
def below : State → List Frame
  | .start | .done _ => []
  | .item _ below | .behindItem _ _ below | .name _ below | .colon _ _ below | .value _ _ below
  | .behindMember _ _ _ below => below

/-- The innermost container that is open. -/
def top : State → UniValue
  | .start => .empty
  | .item items _ => ofFrame (.array items)
  | .behindItem items last _ => addValue (ofValue last) (ofFrame (.array items))
  | .name members _ => ⟨.obj, [], members.map Prod.fst, ofMembers members⟩
  | .colon members key _ | .value members key _ => ofFrame (.object members key)
  | .behindMember members key last _ => addValue (ofValue last) (ofFrame (.object members key))
  | .done value => ofValue value

def depth : State → ℕ
  | .start | .done _ => 0
  | state => (below state).length + 1

def expectOf : State → Expect
  | .start => ⟨false, false, false, false, false⟩
  | .item _ _ => ⟨false, false, true, false, false⟩
  | .name _ _ => ⟨true, false, false, false, false⟩
  | .colon _ _ _ => ⟨false, true, false, false, true⟩
  | .value _ _ _ => ⟨false, false, false, true, false⟩
  | .behindItem _ _ _ | .behindMember _ _ _ _ | .done _ => ⟨false, false, false, false, true⟩

/-- What the loop asks of the last token. -/
def LastTok : State → TokenType → Prop
  | .item items _, tok => tok = .comma ↔ items ≠ []
  | .name members _, tok => tok = .comma ↔ members ≠ []
  | .behindItem _ _ _, tok | .behindMember _ _ _ _, tok => tok ≠ .comma ∧ tok ≠ .arrOpen
  | _, _ => True

/-- The variables in a state of the automaton. -/
structure Represents (state : State) (read : ReadState) : Prop where
  root : read.root = plug (below state) (top state)
  stack : read.stack = depth state
  expect : read.expect = expectOf state
  lastTok : LastTok state read.lastTok

/-- Behind a value. -/
theorem represents_put {value : Value} {below : List Frame} {read : ReadState}
    (hroot : read.root = plug below (ofValue value)) (hstack : read.stack = below.length)
    (hexpect : read.expect = ⟨false, false, false, false, true⟩)
    (hcomma : read.lastTok ≠ .comma) (harrOpen : read.lastTok ≠ .arrOpen) :
    Represents (put value below) read := by
  match below with
  | [] => exact ⟨hroot, hstack, hexpect, trivial⟩
  | .array items :: below => exact ⟨hroot, hstack, hexpect, hcomma, harrOpen⟩
  | .object members key :: below => exact ⟨hroot, hstack, hexpect, hcomma, harrOpen⟩

/-- The state of the automaton behind a token, as `read` starts with a container. -/
def documentStep : State → Token → Option State
  | .start, .objOpen => step .start .objOpen
  | .start, .arrOpen => step .start .arrOpen
  | .start, _ => none
  | state, token => step state token

theorem pushValue_plug (frames : List Frame) (value top : UniValue) (expect : Expect)
    (lastTok : TokenType) :
    pushValue ⟨plug frames top, frames.length + 1, expect, lastTok⟩ value =
      ⟨plug frames (addValue value top), frames.length + 1, expect, lastTok⟩ := by
  rw [pushValue, Nat.add_sub_cancel]
  simp only [modifyBack_plug, addValue]

theorem topType_plug (frames : List Frame) (top : UniValue) (expect : Expect)
    (lastTok : TokenType) :
    topType ⟨plug frames top, frames.length + 1, expect, lastTok⟩ = some top.typ := by
  rw [topType, if_neg (Nat.succ_ne_zero _), Nat.add_sub_cancel, back_plug, Option.map_some]

/-- In front of a value the `switch` takes the first token of the value. -/
theorem switchToken_takeValue (frame : Frame) (frames : List Frame) (lastTok : TokenType)
    {token : Token} (hopen : isValueOpen (tokenType token) = true) :
    Option.Rel Represents (takeValue (frame :: frames) token)
      ((switchToken ⟨plug frames (ofFrame frame), frames.length + 1,
        ⟨false, false, false, false, false⟩, lastTok⟩ (tokenType token) (tokenVal token)).map
          fun state ↦ { state with lastTok := tokenType token }) := by
  cases token with
  | objOpen =>
    simp only [tokenType, switchToken, if_neg (Nat.succ_ne_zero _), pushValue_plug]
    exact .some ⟨rfl, rfl, rfl, by simp [LastTok]⟩
  | arrOpen =>
    simp only [tokenType, switchToken, if_neg (Nat.succ_ne_zero _), pushValue_plug]
    exact .some ⟨rfl, rfl, rfl, by simp [LastTok]⟩
  | kwNull | kwTrue | kwFalse | number _ _ | string _ =>
    simp only [tokenType, switchToken, if_neg (Nat.succ_ne_zero _), pushValue_plug]
    exact .some (represents_put rfl rfl rfl nofun nofun)
  | objClose | arrClose | colon | comma => cases hopen

theorem switchToken_objClose {top : UniValue} (frames : List Frame) (expect : Expect)
    {lastTok : TokenType} (hlast : lastTok ≠ .comma) (htyp : top.typ = .obj) :
    switchToken ⟨plug frames top, frames.length + 1, expect, lastTok⟩ .objClose [] =
      some ⟨plug frames top, frames.length, { expect with objName := false, notValue := true },
        lastTok⟩ := by
  simp only [switchToken, topType_plug, htyp, hlast, Nat.add_one_ne_zero, or_self, if_true,
    if_false, ne_eq, not_true, Nat.add_sub_cancel]

theorem switchToken_arrClose {top : UniValue} (frames : List Frame) (expect : Expect)
    {lastTok : TokenType} (hlast : lastTok ≠ .comma) (htyp : top.typ = .arr) :
    switchToken ⟨plug frames top, frames.length + 1, expect, lastTok⟩ .arrClose [] =
      some ⟨plug frames top, frames.length, { expect with objName := false, notValue := true },
        lastTok⟩ := by
  simp only [switchToken, topType_plug, htyp, hlast, Nat.add_one_ne_zero, or_self, reduceCtorEq,
    if_false, ne_eq, not_true, Nat.add_sub_cancel]

/-- Behind a value a bracket of the other kind is not taken. -/
theorem switchToken_close_of_ne {top : UniValue} (frames : List Frame) (expect : Expect)
    (lastTok : TokenType) :
    (top.typ = .arr →
      switchToken ⟨plug frames top, frames.length + 1, expect, lastTok⟩ .objClose [] = none) ∧
    (top.typ = .obj →
      switchToken ⟨plug frames top, frames.length + 1, expect, lastTok⟩ .arrClose [] = none) := by
  constructor
  · intro htyp
    simp only [switchToken, topType_plug, htyp]
    split_ifs <;> simp_all
  · intro htyp
    simp only [switchToken, topType_plug, htyp]
    split_ifs <;> simp_all

theorem switchToken_comma {top : UniValue} (frames : List Frame) (expect : Expect)
    {lastTok : TokenType} (hcomma : lastTok ≠ .comma) (harrOpen : lastTok ≠ .arrOpen) :
    switchToken ⟨plug frames top, frames.length + 1, expect, lastTok⟩ .comma [] =
      some ⟨plug frames top, frames.length + 1,
        if top.typ = .obj then { expect with objName := true }
        else { expect with arrValue := true }, lastTok⟩ := by
  have hguard : ¬(frames.length + 1 = 0 ∨ lastTok = .comma ∨ lastTok = .arrOpen) :=
    not_or.mpr ⟨Nat.succ_ne_zero _, not_or.mpr ⟨hcomma, harrOpen⟩⟩
  simp only [switchToken, if_neg hguard, topType_plug, Option.some.injEq]
  split_ifs
  · rfl
  · rfl

/-- The members of an array that is closed. -/
theorem addValue_array (items : List Value) (last : Value) :
    addValue (ofValue last) (ofFrame (.array items)) =
      ⟨.arr, [], [], ofItems (items ++ [last])⟩ := by
  rw [ofItems_append]
  rfl

theorem addValue_object (members : List (List UInt8 × Value)) (key : List UInt8) (last : Value) :
    addValue (ofValue last) (ofFrame (.object members key)) =
      ⟨.obj, [], (members ++ [(key, last)]).map Prod.fst,
        ofMembers (members ++ [(key, last)])⟩ := by
  rw [ofMembers_append, List.map_append]
  rfl

/-- In an array the first token of a value is taken as one. -/
theorem step_item (items : List Value) (frames : List Frame) {token : Token}
    (hopen : isValueOpen (tokenType token) = true) :
    step (.item items frames) token = takeValue (.array items :: frames) token := by
  cases items with
  | nil =>
    cases token with
    | objOpen | arrOpen | kwNull | kwTrue | kwFalse | number _ _ | string _ => rfl
    | objClose | arrClose | colon | comma => cases hopen
  | cons item items => rfl

theorem readToken_mk {root : UniValue} {stack : ℕ} {expect checked : Expect} {tok : TokenType}
    (hcheck : checkExpect expect tok = some checked) (lastTok : TokenType) (val : List UInt8) :
    readToken ⟨root, stack, expect, lastTok⟩ tok val =
      (switchToken ⟨root, stack, checked, lastTok⟩ tok val).map fun state ↦
        { state with lastTok := tok } := by
  rw [readToken, hcheck]
  rfl

/-- One turn of the loop is one step of the automaton. -/
theorem readToken_sim {state : State} {read : ReadState} (hrep : Represents state read)
    (hdone : ∀ value, state ≠ .done value) (token : Token) :
    Option.Rel Represents (documentStep state token)
      (readToken read (tokenType token) (tokenVal token)) := by
  obtain ⟨root, stack, expect, lastTok⟩ := read
  obtain ⟨rfl, rfl, rfl, hlast⟩ := hrep
  match state with
  | .start =>
    cases token with
    | objOpen | arrOpen => exact .some ⟨rfl, rfl, rfl, by simp [LastTok, tokenType]⟩
    | objClose | arrClose | colon | comma | kwNull | kwTrue | kwFalse | number _ _ | string _ =>
      exact .none
  | .item items frames =>
    by_cases hopen : isValueOpen (tokenType token) = true
    · have hread := switchToken_takeValue (.array items) frames lastTok hopen
      rw [← step_item items frames hopen] at hread
      simp only [readToken, checkExpect, expectOf, hopen, Bool.true_or, if_true, Option.bind_some,
        Bool.false_eq_true, if_false]
      exact hread
    · cases token with
      | arrClose =>
        cases items with
        | nil =>
          have hcomma : lastTok ≠ .comma := fun hcomma ↦ hlast.mp hcomma rfl
          change Option.Rel _ _ (readToken ⟨plug frames _, frames.length + 1, _, _⟩ .arrClose [])
          rw [readToken_mk rfl, switchToken_arrClose frames _ hcomma rfl]
          exact .some (represents_put rfl rfl rfl nofun nofun)
        | cons item items =>
          obtain rfl : lastTok = .comma := hlast.mpr (List.cons_ne_nil _ _)
          exact .none
      | objClose | colon | comma =>
        cases items with
        | nil => exact .none
        | cons item items => exact .none
      | objOpen | arrOpen | kwNull | kwTrue | kwFalse | number _ _ | string _ =>
        exact absurd rfl hopen
  | .behindItem items last frames =>
    cases token with
    | arrClose =>
      change Option.Rel _ _ (readToken ⟨plug frames (addValue (ofValue last) _), frames.length + 1,
        _, _⟩ .arrClose [])
      rw [readToken_mk rfl, switchToken_arrClose frames _ hlast.1 rfl, addValue_array]
      exact .some (represents_put rfl rfl rfl nofun nofun)
    | comma =>
      change Option.Rel _ _ (readToken ⟨plug frames (addValue (ofValue last) _), frames.length + 1,
        _, _⟩ .comma [])
      rw [readToken_mk rfl, switchToken_comma frames _ hlast.1 hlast.2, addValue_array]
      exact .some ⟨rfl, rfl, rfl, by simp [LastTok]⟩
    | objClose =>
      change Option.Rel _ _ (readToken ⟨plug frames _, frames.length + 1, _, _⟩ .objClose [])
      rw [readToken_mk rfl, (switchToken_close_of_ne frames _ _).1 rfl]
      exact .none
    | colon | objOpen | arrOpen | kwNull | kwTrue | kwFalse | number _ _ | string _ => exact .none
  | .name members frames =>
    cases token with
    | objClose =>
      cases members with
      | nil =>
        have hcomma : lastTok ≠ .comma := fun hcomma ↦ hlast.mp hcomma rfl
        change Option.Rel _ _ (readToken ⟨plug frames _, frames.length + 1, _, _⟩ .objClose [])
        rw [readToken_mk rfl, switchToken_objClose frames _ hcomma rfl]
        exact .some (represents_put rfl rfl rfl nofun nofun)
      | cons member members =>
        obtain rfl : lastTok = .comma := hlast.mpr (List.cons_ne_nil _ _)
        exact .none
    | string key =>
      change Option.Rel _ _ (readToken ⟨plug frames _, frames.length + 1, _, _⟩ .string key)
      rw [readToken_mk rfl]
      simp only [switchToken, if_neg (Nat.succ_ne_zero _), expectOf, if_true, pushKey,
        Nat.add_sub_cancel, modifyBack_plug]
      exact .some ⟨rfl, rfl, rfl, trivial⟩
    | arrClose | comma | colon | objOpen | arrOpen | kwNull | kwTrue | kwFalse | number _ _ =>
      cases members with
      | nil => exact .none
      | cons member members => exact .none
  | .colon members key frames =>
    cases token with
    | colon =>
      change Option.Rel _ _ (readToken ⟨plug frames _, frames.length + 1, _, _⟩ .colon [])
      rw [readToken_mk rfl]
      simp only [switchToken, if_neg (Nat.succ_ne_zero _), topType_plug]
      exact .some ⟨rfl, rfl, rfl, trivial⟩
    | objClose | arrClose | comma | objOpen | arrOpen | kwNull | kwTrue | kwFalse | number _ _
    | string _ => exact .none
  | .value members key frames =>
    by_cases hopen : isValueOpen (tokenType token) = true
    · have hread := switchToken_takeValue (.object members key) frames lastTok hopen
      simp only [readToken, checkExpect, expectOf, hopen, if_true, Option.bind_some,
        Bool.false_eq_true, if_false]
      exact hread
    · cases token with
      | objClose | arrClose | colon | comma => exact .none
      | objOpen | arrOpen | kwNull | kwTrue | kwFalse | number _ _ | string _ =>
        exact absurd rfl hopen
  | .behindMember members key last frames =>
    cases token with
    | objClose =>
      change Option.Rel _ _ (readToken ⟨plug frames (addValue (ofValue last) _), frames.length + 1,
        _, _⟩ .objClose [])
      rw [readToken_mk rfl, switchToken_objClose frames _ hlast.1 rfl, addValue_object]
      exact .some (represents_put rfl rfl rfl nofun nofun)
    | comma =>
      change Option.Rel _ _ (readToken ⟨plug frames (addValue (ofValue last) _), frames.length + 1,
        _, _⟩ .comma [])
      rw [readToken_mk rfl, switchToken_comma frames _ hlast.1 hlast.2, addValue_object]
      exact .some ⟨rfl, rfl, rfl, by simp [LastTok]⟩
    | arrClose =>
      change Option.Rel _ _ (readToken ⟨plug frames _, frames.length + 1, _, _⟩ .arrClose [])
      rw [readToken_mk rfl, (switchToken_close_of_ne frames _ _).2 rfl]
      exact .none
    | colon | objOpen | arrOpen | kwNull | kwTrue | kwFalse | number _ _ | string _ => exact .none
  | .done value => exact absurd rfl (hdone value)

/-! ### Runs of tokens -/

theorem step_of_documentStep {state after : State} {token : Token} :
    documentStep state token = some after → step state token = some after := by
  fun_cases documentStep state token with
  | case1 => exact id
  | case2 => exact id
  | case3 => nofun
  | case4 => exact id

/-- Behind a token the automaton is not at the start. -/
theorem step_ne_start {state after : State} {token : Token}
    (hstep : step state token = some after) : after ≠ .start := by
  rintro rfl
  have hconsumed : [] = consumed state ++ [token] := consumed_step hstep
  exact List.append_ne_nil_of_right_ne_nil _ (List.cons_ne_nil _ _) hconsumed.symm

theorem documentStep_of_ne_start {state : State} (hstart : state ≠ .start) (token : Token) :
    documentStep state token = step state token := by
  cases state with
  | start => exact absurd rfl hstart
  | item | behindItem | name | colon | value | behindMember | done => rfl

theorem run_of_documentRun {state after : State} {input : List Token}
    (hrun : input.foldlM documentStep state = some after) : run state input = some after := by
  induction input generalizing state with
  | nil => exact hrun
  | cons token input ih =>
    obtain ⟨between, hstep, hrun⟩ := Option.bind_eq_some_iff.mp hrun
    rw [run_cons_of_step (step_of_documentStep hstep), ih hrun]

theorem documentRun_of_run (state : State) {after : State} {input : List Token}
    (hstart : state ≠ .start) (hrun : run state input = some after) :
    input.foldlM documentStep state = some after := by
  induction input generalizing state with
  | nil => exact hrun
  | cons token input ih =>
    obtain ⟨between, hstep, hrun⟩ := Option.bind_eq_some_iff.mp hrun
    rw [List.foldlM_cons, documentStep_of_ne_start hstart, hstep]
    exact ih between (step_ne_start hstep) hrun

/-- From the start exactly the tokens of objects and arrays are taken. -/
theorem documentRun_eq_done_iff {input : List Token} {value : Value} :
    input.foldlM documentStep .start = some (.done value) ↔
      input = tokens value ∧ IsContainer value := by
  constructor
  · intro hrun
    obtain rfl := run_eq_done_iff.mp (run_of_documentRun hrun)
    refine ⟨rfl, ?_⟩
    cases value with
    | array | object => trivial
    | null | number | string => cases hrun
    | bool value =>
      cases value with
      | false => cases hrun
      | true => cases hrun
  · rintro ⟨rfl, hcontainer⟩
    have hrun := run_eq_done_iff.mpr (Eq.refl (tokens value))
    cases value with
    | array items =>
      exact documentRun_of_run (.item [] []) nofun hrun
    | object members =>
      exact documentRun_of_run (.name [] []) nofun hrun
    | null | bool | number | string => cases hcontainer

/-! ### The loop -/

theorem isWhitespace_cases {char : UInt8} (hspace : isWhitespace char = true) :
    char = 0x20 ∨ char = 0x09 ∨ char = 0x0a ∨ char = 0x0d := by
  simp only [isWhitespace, Bool.or_eq_true, decide_eq_true_eq] at hspace
  tauto

theorem isWhitespace_ascii {spaces : List UInt8}
    (hspaces : ∀ char ∈ spaces, isWhitespace char = true) :
    IsAscii spaces := by
  intro char hmem
  obtain rfl | rfl | rfl | rfl := isWhitespace_cases (hspaces char hmem)
  · decide
  · decide
  · decide
  · decide

/-- A number ends in front of white space. -/
theorem numberEnds_of_spaces {char : UInt8} {spaces rest : List UInt8}
    (hspaces : ∀ other ∈ char :: spaces, isWhitespace other = true) :
    NumberEnds (char :: spaces ++ rest) := by
  intro ch hch
  obtain rfl : char = ch := Option.some.inj hch
  obtain rfl | rfl | rfl | rfl := isWhitespace_cases (hspaces char (List.mem_cons_self ..))
  · decide
  · decide
  · decide
  · decide

/-- A number ends in front of a text of tokens that does not start with a number. -/
theorem numberEnds_of_spaced {input : List Token} {text : List UInt8} (hspaced : Spaced input text)
    (hfirst : ∀ next hnext, input.head? ≠ some (.number next hnext)) : NumberEnds text := by
  cases hspaced with
  | nil hspaces =>
    cases text with
    | nil => nofun
    | cons char spaces =>
      have hends : NumberEnds (char :: spaces ++ []) := numberEnds_of_spaces hspaces
      rw [List.append_nil] at hends
      exact hends
  | @cons token input spaces lexeme text hspaces hlexeme hrest =>
    cases spaces with
    | nil =>
      cases hlexeme with
      | number hnumber => exact absurd rfl (hfirst _ hnumber)
      | objOpen | objClose | arrOpen | arrClose | colon | comma | kwNull | kwTrue | kwFalse
      | string _ =>
        intro ch hch
        obtain rfl := Option.some.inj hch
        decide
    | cons char spaces =>
      rw [List.append_assoc]
      exact numberEnds_of_spaces hspaces

/-- What follows a token. -/
theorem drop_consumed {raw before rest : List UInt8} (hraw : raw.length < 2 ^ 32)
    (hsplit : raw = before ++ rest) :
    raw.drop ((raw.length - rest.length) % 2 ^ 32) = rest := by
  rw [Nat.mod_eq_of_lt (by omega), hsplit, List.length_append, Nat.add_sub_cancel,
    List.drop_left]

/-- As long as the automaton is not done the stack is not empty. -/
theorem stack_ne_zero {state after : State} {token : Token} {read : ReadState}
    (hstep : documentStep state token = some after) (hrep : Represents after read)
    (hdone : ∀ value, after ≠ .done value) : read.stack ≠ 0 := by
  rw [hrep.stack]
  cases after with
  | start => exact absurd rfl (step_ne_start (step_of_documentStep hstep))
  | done value => exact absurd rfl (hdone value)
  | item | behindItem | name | colon | value | behindMember => exact Nat.succ_ne_zero _

/-- A string is not the last token. -/
theorem documentStep_string_ne {state after : State} {val : List UInt8}
    (hdone : ∀ value, state ≠ .done value) (hstep : documentStep state (.string val) = some after)
    (value : Value) : after ≠ .done value := by
  rintro rfl
  match state with
  | .start | .item [] _ | .item (_ :: _) _ | .behindItem _ _ _ | .name [] _ | .name (_ :: _) _
  | .colon _ _ _ | .value _ _ _ | .behindMember _ _ _ _ => cases hstep
  | .done value => exact hdone value rfl

/-- The turn of the loop with a token. -/
theorem readLoop_succ {turns : ℕ} {read : ReadState} {raw : List UInt8} {token : Token}
    (htok : (getJsonToken raw).tok = tokenType token)
    (hval : (getJsonToken raw).tokenVal = tokenVal token) :
    readLoop (turns + 1) read raw =
      match readToken read (tokenType token) (tokenVal token) with
      | none => (false, read.root)
      | some after =>
        if after.stack ≠ 0 then readLoop turns after (raw.drop (getJsonToken raw).consumed)
        else (decide ((getJsonToken (raw.drop (getJsonToken raw).consumed)).tok = .none),
          after.root) := by
  have hstop : ¬(tokenType token = .none ∨ tokenType token = .err) :=
    not_or.mpr (tokenType_ne token)
  rw [readLoop, htok, hval]
  exact if_neg hstop

/-- The turn of the loop with a token, as the automaton takes it. -/
theorem readLoop_of_token (token : Token) {turns : ℕ} {state : State} {read : ReadState}
    {raw : List UInt8} {value : UniValue} (hrep : Represents state read)
    (hdone : ∀ value, state ≠ .done value) (htok : (getJsonToken raw).tok = tokenType token)
    (hval : (getJsonToken raw).tokenVal = tokenVal token)
    (hloop : readLoop (turns + 1) read raw = (true, value)) :
    ∃ after next, documentStep state token = some after ∧ Represents after next ∧
      ((∃ found, after = .done found ∧ value = ofValue found ∧
        (getJsonToken (raw.drop (getJsonToken raw).consumed)).tok = .none) ∨
      (∀ found, after ≠ .done found) ∧
        readLoop turns next (raw.drop (getJsonToken raw).consumed) = (true, value)) := by
  rw [readLoop_succ htok hval] at hloop
  have hsim := readToken_sim hrep hdone token
  match hstep : documentStep state token, hread : readToken read (tokenType token) (tokenVal token)
    with
  | none, none =>
    rw [hread] at hloop
    cases hloop
  | some after, some next =>
    rw [hstep, hread] at hsim
    obtain ⟨hnext⟩ := hsim
    rw [hread] at hloop
    refine ⟨after, next, rfl, hnext, ?_⟩
    by_cases hafter : ∃ found, after = .done found
    · obtain ⟨found, rfl⟩ := hafter
      have hstack : next.stack = 0 := hnext.stack
      simp only [hstack, ne_eq, not_true, if_false, Prod.mk.injEq, decide_eq_true_eq] at hloop
      exact .inl ⟨found, rfl, by rw [← hloop.2, hnext.root]; rfl, hloop.1⟩
    · have hnot : ∀ found, after ≠ .done found := fun found heq ↦ hafter ⟨found, heq⟩
      simp only [if_pos (stack_ne_zero hstep hnext hnot)] at hloop
      exact .inr ⟨hnot, hloop⟩
  | none, some _ | some _, none =>
    rw [hstep, hread] at hsim
    cases hsim

/-- What a loop that succeeds has read. By induction on the turns. -/
theorem readLoop_sound {turns : ℕ} {state : State} {read : ReadState} {raw : List UInt8}
    {value : UniValue} (hrep : Represents state read) (hdone : ∀ value, state ≠ .done value)
    (hraw : raw.length < 2 ^ 32) (hloop : readLoop turns read raw = (true, value)) :
    ∃ input found, input.foldlM documentStep state = some (.done found) ∧ value = ofValue found ∧
      Spaced input raw ∧ IsAscii raw := by
  induction turns generalizing state read raw with
  | zero => cases hloop
  | succ turns ih =>
    by_cases hstop : (getJsonToken raw).tok = .none ∨ (getJsonToken raw).tok = .err
    · simp only [readLoop, if_pos hstop] at hloop
      cases hloop
    obtain ⟨hnone, herr⟩ := not_or.mp hstop
    obtain ⟨rest, hconsumed, ⟨token, spaces, lexeme, hsplit, hspaces, hlexeme, hascii, htok, hval⟩ |
      ⟨htok, rfl⟩⟩ := getJsonToken_spec hnone herr
    · have hdrop := drop_consumed hraw hsplit
      obtain ⟨after, next, hstep, hnext, hbehind⟩ :=
        readLoop_of_token token hrep hdone htok hval hloop
      have hbefore : IsAscii (spaces ++ lexeme) :=
        isAscii_append.mpr ⟨isWhitespace_ascii hspaces, hascii⟩
      have hfold (input : List Token) :
          (token :: input).foldlM documentStep state = input.foldlM documentStep after := by
        rw [List.foldlM_cons, hstep]
        rfl
      rw [hconsumed, hdrop] at hbehind
      obtain ⟨found, rfl, rfl, hspace⟩ | ⟨hafter, hloop⟩ := hbehind
      · have hrest := getJsonToken_none_iff.mp hspace
        rw [hsplit]
        exact ⟨[token], found, hfold [], rfl, .cons hspaces hlexeme (.nil hrest),
          isAscii_append.mpr ⟨hbefore, isWhitespace_ascii hrest⟩⟩
      · have hlength : rest.length ≤ raw.length := by
          rw [hsplit, List.length_append]
          exact Nat.le_add_left _ _
        obtain ⟨input, found, hrun, hvalue, hspaced, hrest⟩ := ih hnext hafter (by omega) hloop
        rw [hsplit]
        exact ⟨token :: input, found, (hfold input).trans hrun, hvalue,
          .cons hspaces hlexeme hspaced, isAscii_append.mpr ⟨hbefore, hrest⟩⟩
    · -- The string is not closed: the next turn finds the end of the text.
      have hdrop := drop_consumed hraw (List.append_nil raw).symm
      obtain ⟨after, next, hstep, hnext, hbehind⟩ := readLoop_of_token
        (.string (getJsonToken raw).tokenVal) hrep hdone htok rfl hloop
      rw [hconsumed, hdrop] at hbehind
      obtain ⟨found, rfl, -, -⟩ | ⟨-, hloop⟩ := hbehind
      · exact absurd rfl (documentStep_string_ne hdone hstep found)
      · cases turns with
        | zero => cases hloop
        | succ turns => cases hloop

/-- The text of a run is read. By induction on the tokens. -/
theorem readLoop_complete {input : List Token} {turns : ℕ} {state : State} {read : ReadState}
    {raw : List UInt8} {found : Value} (hrep : Represents state read)
    (hdone : ∀ value, state ≠ .done value) (hraw : raw.length < 2 ^ 32)
    (hrun : input.foldlM documentStep state = some (.done found)) (hspaced : Spaced input raw)
    (hascii : IsAscii raw) (hturns : raw.length < turns) :
    readLoop turns read raw = (true, ofValue found) := by
  induction input generalizing state read raw turns with
  | nil => exact absurd (Option.some.inj hrun) (hdone found)
  | cons token input ih =>
    have hseparated := run_separated (run_of_documentRun hrun)
    obtain ⟨after, hstep, hrest⟩ := Option.bind_eq_some_iff.mp hrun
    cases hspaced with
    | @cons _ _ spaces lexeme text hspaces hlexeme htext =>
      obtain ⟨hbefore, hbehind⟩ := isAscii_append.mp hascii
      have hends : ∀ number hnumber, token = .number number hnumber → NumberEnds text := by
        rintro number hnumber rfl
        refine numberEnds_of_spaced htext fun next hnext hhead ↦ ?_
        exact (List.isChain_cons.mp hseparated).1 _ hhead number hnumber next hnext rfl rfl
      have hlexed := getJsonToken_lexeme hspaces hlexeme (isAscii_append.mp hbefore).2 hends
      have hdrop : (spaces ++ lexeme ++ text).drop ((spaces ++ lexeme).length % 2 ^ 32) = text := by
        have hdrop := drop_consumed hraw rfl
        have hlength :
            (spaces ++ lexeme ++ text).length = (spaces ++ lexeme).length + text.length :=
          List.length_append
        rwa [hlength, Nat.add_sub_cancel] at hdrop
      have hlength : text.length < (spaces ++ lexeme ++ text).length := by
        have hpos := List.length_pos_iff.mpr (dropWhile_lexeme hlexeme []).2
        simp only [List.length_append]
        omega
      have hsim := readToken_sim hrep hdone token
      rw [hstep] at hsim
      match turns, hread : readToken read (tokenType token) (tokenVal token) with
      | 0, _ => exact absurd hturns (Nat.not_lt_zero _)
      | turns + 1, none =>
        rw [hread] at hsim
        cases hsim
      | turns + 1, some next =>
        rw [hread] at hsim
        obtain ⟨hnext⟩ := hsim
        rw [readLoop_succ (by rw [hlexed]) (by rw [hlexed]), hread, hlexed, hdrop]
        by_cases hafter : ∃ last, after = .done last
        · obtain ⟨last, rfl⟩ := hafter
          have hstack : next.stack = 0 := hnext.stack
          have hroot : next.root = ofValue last := hnext.root
          cases htext with
          | nil hrestSpaces =>
            obtain rfl : last = found := State.done.inj (Option.some.inj hrest)
            simp only [hstack, ne_eq, not_true, if_false, getJsonToken_none_iff.mpr hrestSpaces,
              hroot, decide_true]
          | cons => cases hrest
        · have hnot : ∀ last, after ≠ .done last := fun last heq ↦ hafter ⟨last, heq⟩
          simp only [if_pos (stack_ne_zero hstep hnext hnot)]
          exact ih hnext hnot (by omega) hrest htext hbehind (by omega)

/-- `read` succeeds exactly on the texts of objects and arrays of bytes below 0x80. -/
theorem read_eq_true_iff {rawStr : List UInt8} {value : UniValue}
    (hraw : rawStr.length < 2 ^ 32) :
    read rawStr = (true, value) ↔ ∃ found, IsContainer found ∧ value = ofValue found ∧
      Spaced (tokens found) (cstring rawStr) ∧ IsAscii (cstring rawStr) := by
  have hlength : (cstring rawStr).length < 2 ^ 32 := (length_cstring_le rawStr).trans_lt hraw
  have hrep : Represents .start ⟨.empty, 0, ⟨false, false, false, false, false⟩, .none⟩ :=
    ⟨rfl, rfl, rfl, trivial⟩
  constructor
  · intro hread
    obtain ⟨input, found, hrun, hvalue, hspaced, hascii⟩ := readLoop_sound hrep nofun hlength hread
    obtain ⟨rfl, hcontainer⟩ := documentRun_eq_done_iff.mp hrun
    exact ⟨found, hcontainer, hvalue, hspaced, hascii⟩
  · rintro ⟨found, hcontainer, rfl, hspaced, hascii⟩
    have hrun := documentRun_eq_done_iff.mpr ⟨rfl, hcontainer⟩
    exact readLoop_complete hrep nofun hlength hrun hspaced hascii (Nat.lt_succ_self _)

/-- The two brackets of an array. -/
theorem read_eq_true_iff_brackets :
    read ['['.toUInt8, ']'.toUInt8] = (true, ofValue (.array [])) ↔
      ∃ found, IsContainer found ∧ ofValue (.array []) = ofValue found ∧
        Spaced (tokens found) (cstring ['['.toUInt8, ']'.toUInt8]) ∧
        IsAscii (cstring ['['.toUInt8, ']'.toUInt8]) :=
  read_eq_true_iff (by decide)

end Exc.Json
