import LaneScript.Grammar.Parse
import LaneScript.Proofs.FragmentTokens
import LaneScript.Proofs.TokenWeights

/-!
# Integer literals keep their value

An integer is a numeral in a text, a value or a kept text in a token, and a number with a sign in a
tree.  Nothing is lost on the way.

* A text that is a numeral and nothing else has one token, with the number that it denotes
  (`lexFrom_numeral`).
* Only numerals have tokens that keep their text, so that all of these are read again from it
  (`rereads_of_lexFrom`).
* The sign of a negative integer is a token of its own, and goes into the number in the tree
  (`parseText_render_int`).
-/

namespace LaneScript

open Literal

/-- A numeral that is a whole text has its token and the end of the input. -/
theorem lexFrom_numeral (file : String) (line : Nat) {text : List Char} {token : Token}
    (hfirst : ∃ c rest, text = c :: rest ∧ c.isDigit = true)
    (hscan : scanNumeral text = .ok (token, text.length)) :
    lexFrom file line (String.ofList text) = .ok [⟨token, line, true⟩, ⟨.done, line, true⟩] := by
  obtain ⟨c, rest, rfl, hc⟩ := hfirst
  refine lexFrom_lexes ⟨c, rest, String.toList_ofList, fun line => ?_⟩
  rw [List.append_nil, nextStep_digit _ line hc, hscan, String.toList_ofList]
  rfl

/-- Every token of a text that keeps its text is read from that text again. -/
theorem rereads_of_lexFrom {file source : String} {line : Nat} {tokens : List Located}
    (h : lexFrom file line source = .ok tokens) : ∀ here ∈ tokens, here.token.Rereads := by
  obtain ⟨n, s, rest, hrounds, -, rfl⟩ := exists_rounds_lexFrom h
  have hall := hrounds.forall_mem (fun _ hproper => hproper.rereads) (fun _ => trivial) trivial
    (by simp [LexState.start])
  refine List.forall_mem_append.2 ⟨fun here hhere => ?_, List.forall_mem_singleton.2 trivial⟩
  exact hall here (Array.mem_toList_iff.1 hhere)

/-- An integer of either sign is read back as one node. -/
theorem parseText_render_int (file : String) {n : Int} (hn : n.natAbs < Nat.pow 2 63)
    (line : Nat) :
    parseText file (Node.render ⟨.int n, line⟩) = .ok [⟨.int n, 1⟩] := by
  obtain ⟨last, hlex⟩ := @lex_renderScript file .none [⟨.int n, line⟩]
    (List.forall_mem_singleton.2 (.statement (.int line hn)))
  have htext : renderScript [⟨.int n, line⟩] = Node.render ⟨.int n, line⟩ := rfl
  rw [parseText, ← htext, hlex]
  cases n with
  | ofNat n => rfl
  | negSucc n =>
    have hspelled : spelledInt .tight (Int.negSucc n) =
        [⟨.tight, .op (.binary .sub)⟩, ⟨.tight, .int (n + 1)⟩] := if_pos (Int.negSucc_lt_zero n)
    rw [spelledBody, Node.spelled, Form.spelled, hspelled]
    rfl

/-- **Integers keep their value**, however they are written, whatever their size and their sign. -/
theorem integer_literals_keep_value (file : String) :
    (∀ line n text, IsNumeral n text → lexFrom file line (String.ofList text) =
        .ok [⟨numeralToken n text, line, true⟩, ⟨.done, line, true⟩]) ∧
      (∀ line first source tokens, lexFrom file first source = .ok tokens →
        ∀ here ∈ tokens, ∀ text, here.token = .bigInt text →
          lexFrom file line text = .ok [⟨.bigInt text, line, true⟩, ⟨.done, line, true⟩]) ∧
      ∀ (n : Int) line, n.natAbs < Nat.pow 2 63 →
        parseText file (Node.render ⟨.int n, line⟩) = .ok [⟨.int n, 1⟩] := by
  refine ⟨?_, ?_, fun n line hn => parseText_render_int file hn line⟩
  · intro line n text htext
    exact lexFrom_numeral file line htext.exists_first (scanNumeral_of_isNumeral htext)
  · intro line first source tokens hlex here hhere text htoken
    have hrereads := rereads_of_lexFrom hlex here hhere
    rw [htoken] at hrereads
    have hagain := lexFrom_numeral file line hrereads.1 hrereads.2
    rwa [String.ofList_toList] at hagain

/-- An octal numeral with an underscore behind its zero, the least integer that keeps its text, and
the least negative integer that is read back. -/
theorem integer_literals_keep_value_bounds :
    (IsNumeral 15 "0_17".toList ∧
      lexFrom "Fastfile" 3 "0_17" = .ok [⟨.int 15, 3, true⟩, ⟨.done, 3, true⟩]) ∧
    (lexFrom "Fastfile" 1 "0X80_00000000000000" =
        .ok [⟨.bigInt "0X8000000000000000", 1, true⟩, ⟨.done, 1, true⟩] ∧
      lexFrom "Fastfile" 2 "0X8000000000000000" =
        .ok [⟨.bigInt "0X8000000000000000", 2, true⟩, ⟨.done, 2, true⟩]) ∧
    parseText "Fastfile" (Node.render ⟨.int (-9223372036854775807), 4⟩) =
      .ok [⟨.int (-9223372036854775807), 1⟩] := by
  have hoctal : IsNumeral 15 (['0'] ++ ((([] ++ ['_']) ++ ['1']) ++ ['7'])) :=
    @IsNumeral.marked 15 8 _ _ (by decide) ⟨'1', by decide, by decide⟩
      ((Denotes.nil.underscore.digit (d := 1) (by decide) (by decide)).digit (d := 7) (by decide)
        (by decide))
  have hlarge : lexFrom "Fastfile" 1 "0X80_00000000000000" =
      .ok [⟨.bigInt "0X8000000000000000", 1, true⟩, ⟨.done, 1, true⟩] := by
    decide +kernel
  obtain ⟨hread, hagain, hback⟩ := integer_literals_keep_value "Fastfile"
  refine ⟨⟨hoctal, hread 3 15 _ hoctal⟩, ⟨hlarge, ?_⟩, hback _ 4 (by decide)⟩
  exact hagain 2 1 _ _ hlarge _ List.mem_cons_self _ rfl

end LaneScript
