import LaneScript.Proofs.CapitalCalls
import LaneScript.Proofs.ReadFragment

/-!
# Writing a script and reading it back

The text of a lane program is read as the program itself: `lane_program_roundTrip`.  The two halves
of the proof meet at the tokens.  `lex_renderScript` says which tokens the text is made of, and
`parse_spelledBody` that the grammar gives the statements back from them, but for their lines.

This is not so for every script, `not_every_script_read_back`: a call without arguments loses its
parentheses in the text, and a name with a capital then is a constant.  `script_read_back_iff` says
that nothing else is lost where names with a capital are used.
-/

namespace LaneScript

open LaneScript.Parser
open List

/-! ### From tokens to statements -/

theorem length_le_tokensWeight (tokens : List Located) : tokens.length ≤ tokensWeight tokens := by
  have hweight : ∀ token : Token, 1 ≤ token.weight := by
    intro token
    cases token <;> simp [Token.weight]
  induction tokens with
  | nil => exact Nat.le_refl _
  | cons first tokens ih =>
    have hfirst := hweight first.token
    simp only [tokensWeight, foldr_cons, length_cons] at ih ⊢
    omega

/-- The statements of a script, the first of them at the start of the text. -/
theorem readsAll_script {script : List Node} {s : State} {levels bound : Nat} {last : Located}
    (hscript : ∀ statement ∈ script, IsStatement levels statement (statement.spelled 0))
    (hs : s.Calm) (hdepth : s.depth + levels ≤ maxNesting) (hlast : last.token = .done)
    (hbound : (place 1 true (spelledBody 0 script .tight) ++ [last]).length < bound) :
    ReadsAll (readAt bound (.statements [])) s (place 1 true (spelledBody 0 script .tight)) [last]
      script := by
  have hends : EndsBody [] [] last [] := endsBody_nil (.inr hlast) [] []
  cases script with
  | nil => exact hends.reads s bound hbound
  -- The first statement has no line end before it; the others are the rest of a body.
  | cons statement others =>
    obtain ⟨hstatement, hothers⟩ := forall_mem_cons.1 hscript
    rw [spelledBody, hstatement.starts.place_append] at hbound ⊢
    generalize 1 + spelledLines (statement.spelled 0 .tight) = line at hbound ⊢
    refine yields_readAt (fun bound hbound => ?_) hbound
    have hlength := length_pos_iff.2 (hstatement.starts.ne_nil 1 true)
    have hcloses := closes_spelledBody hothers hends line false
    have hshort : (place line false (spelledBody 0 others (.newLine 0)) ++ [] ++ [last]).length <
        bound := by
      simp only [length_append, length_cons, length_nil] at hbound ⊢
      omega
    have htail := readsAll_statements hothers hs hdepth (nil_subset _) hends line false hshort
    rw [append_nil] at hcloses htail
    exact readsAll_statements_cons hstatement hs hdepth (nil_subset _) 1 true hcloses htail
      (by rwa [List.append_assoc] at hbound)

/-- The tokens of statements that can be read, with so many levels at most, are read as them.  Only
the lines may differ. -/
theorem parse_statements (file : String) {levels : Nat} (hlevels : levels ≤ maxNesting)
    {script : List Node}
    (hscript : ∀ statement ∈ script, IsStatement levels statement (statement.spelled 0))
    (line : Nat) :
    ∃ found, parse file (place 1 true (spelledBody 0 script .tight) ++ [⟨.done, line, true⟩]) =
      .ok found ∧ bareAll found = bareAll script := by
  generalize hlast : Located.mk .done line true = last
  generalize htokens : place 1 true (spelledBody 0 script .tight) = tokens
  -- The reader is given as many requests as the tokens weigh, which is enough for them.
  have hbound := length_le_tokensWeight (tokens ++ [last])
  have hread : ReadsAll (readAt (tokensWeight (tokens ++ [last]) + 1) (.statements []))
      (.start file [] [.empty true] 0) tokens [last] script := by
    rw [← htokens] at hbound ⊢
    exact readsAll_script hscript (calm_start file [] 0) ((Nat.zero_add levels).symm ▸ hlevels)
      (by rw [← hlast]) (Nat.lt_succ_of_le hbound)
  obtain ⟨found, hrun, hfound⟩ := hread
  refine ⟨found, ?_, hfound⟩
  have hprogram : (Rule.program (readAt (tokensWeight (tokens ++ [last]) + 1))).run
      (.start file (tokens ++ [last]) [.empty true] 0) =
        .ok (found, (State.start file [] [.empty true] 0).at [last]) := by
    refine (run_bind_ok hrun _).trans ?_
    rw [run_current_bind, ← hlast]
    rfl
  rw [parse, Parser.run']
  rw [hprogram]
  rfl

/-- The tokens of a lane program of moderate height are read as its statements. -/
theorem parse_spelledBody (file : String) {capitals : Capitals} (hcalls : capitals ≠ .calls)
    {script : List Node}
    (hscript : ∀ statement ∈ script,
      InFragment capitals .statement statement ∧ statement.height ≤ 31) (line : Nat) :
    ∃ found, parse file (place 1 true (spelledBody 0 script .tight) ++ [⟨.done, line, true⟩]) =
      .ok found ∧ bareAll found = bareAll script := by
  -- A statement of height 31 takes 2 * 31 + 1 levels of nesting, and the reader allows 64.
  have hstatements : ∀ statement ∈ script, IsStatement 63 statement (statement.spelled 0) := by
    intro statement hstatement
    obtain ⟨hfragment, hheight⟩ := hscript statement hstatement
    have hreads : IsValue 0 statement := readsBack hcalls hfragment 0
    exact ⟨hreads.isStatement.starts, hreads.isStatement.reads.mono (by omega)⟩
  exact parse_statements file (by decide) hstatements line

/-- A written script is read as a script that is spelled like it, but for the lines. -/
theorem parseText_renderScript (file : String) {capitals capitals' : Capitals}
    {script back : List Node}
    (hscript : ∀ statement ∈ script, InFragment capitals .statement statement)
    (hcalls : capitals' ≠ .calls)
    (hback : ∀ statement ∈ back,
      InFragment capitals' .statement statement ∧ statement.height ≤ 31)
    (hspelled : spelledBody 0 back .tight = spelledBody 0 script .tight) :
    ∃ found, parseText file (renderScript script) = .ok found ∧ bareAll found = bareAll back := by
  obtain ⟨line, hlex⟩ := lex_renderScript hscript
  obtain ⟨found, hparse, hfound⟩ := parse_spelledBody file hcalls hback line
  rw [hspelled] at hparse
  refine ⟨found, ?_, hfound⟩
  rw [parseText, hlex]
  exact hparse

/-! ### Lane programs -/

/-- **Lane programs survive being written and read back.**  The text of a lane program of moderate
height is a script, its tree is the same up to lines, and the document built from it is the same. -/
theorem lane_program_roundTrip (file : String) {script : List Node}
    (hscript : ∀ statement ∈ script,
      InFragment .none .statement statement ∧ statement.height ≤ 30) :
    ∃ found, parseText file (renderScript script) = .ok found ∧ sameNodes found script = true ∧
      (build found).document = (build script).document := by
  have hback : ∀ statement ∈ script,
      InFragment .none .statement statement ∧ statement.height ≤ 31 := fun statement h =>
    ⟨(hscript statement h).1, Nat.le_succ_of_le (hscript statement h).2⟩
  obtain ⟨found, hparse, hbare⟩ :=
    parseText_renderScript file (fun statement h => (hscript statement h).1) (by decide) hback rfl
  exact ⟨found, hparse, sameNodes_of_bareAll_eq hbare, document_build_eq_of_bareAll_eq hbare⟩

/-- A lane with a named argument.  Its body has a string to escape, a power of a negative number
and a range without an end. -/
def betaLane : Node :=
  ⟨.block ⟨.call none "lane" [⟨.sym "beta", 1⟩,
      ⟨.hash [⟨.pair ⟨.sym "retries", 1⟩ ⟨.int 2, 1⟩, 1⟩] false, 1⟩] false, 1⟩ []
    [⟨.call none "puts" [⟨.str "#\x7b\"\\\n\x7d", 2⟩] false, 2⟩,
      ⟨.ternary ⟨.call none "ready?" [] false, 3⟩ ⟨.binary .pow ⟨.int (-2), 3⟩ ⟨.int 3, 3⟩, 3⟩
        ⟨.range (some ⟨.int 1, 3⟩) none false, 3⟩, 3⟩], 1⟩

theorem inFragment_betaLane : InFragment .none .statement betaLane := by
  refine .block 1 1 (by decide +kernel) ?_ ?_
  · refine @InFragment.keywordCall _ _ [⟨.sym "beta", 1⟩] _ 1 1 (.inl (by decide +kernel)) ?_
      (by simp) ?_
    · simpa using .sym "beta" 1
    · simpa using .pair 1 (by simp) (.sym "retries" 1) (.int 1 (by decide))
  · refine forall_mem_cons.2 ⟨.statement ?_, forall_mem_singleton.2 (.statement ?_)⟩
    · exact .call 2 (.inl (by decide +kernel)) (by simpa using .str _ 2)
    · refine .ternary 3 ?_ ?_ ?_
      · exact .call 3 (.inl (by decide +kernel)) (by simp)
      · exact .binary 3 (by decide) (.int 3 (by decide)) (.int 3 (by decide))
      · exact .range false 3 (.inl (by simp)) (by simpa using .int 3 (by decide)) (by simp)

theorem lane_program_roundTrip_betaLane :
    (∀ statement ∈ [betaLane], InFragment .none .statement statement ∧ statement.height ≤ 30) ∧
      ∃ found, parseText "Fastfile" (renderScript [betaLane]) = .ok found ∧
        sameNodes found [betaLane] = true ∧
        (build found).document = (build [betaLane]).document := by
  have hscript : ∀ statement ∈ [betaLane],
      InFragment .none .statement statement ∧ statement.height ≤ 30 :=
    forall_mem_singleton.2 ⟨inFragment_betaLane, by decide⟩
  exact ⟨hscript, lane_program_roundTrip _ hscript⟩

/-! ### Names with a capital -/

/-- **What a written script is read as.**  Its text is a script in which constants stand for the
calls of names with a capital that have no arguments.  So the script comes back as it was exactly
if it has no such calls. -/
theorem script_read_back_iff (file : String) {script : List Node}
    (hscript : ∀ statement ∈ script,
      InFragment .calls .statement statement ∧ statement.height ≤ 30) :
    ∃ found, parseText file (renderScript script) = .ok found ∧
      sameNodes found (script.map Node.asRead) = true ∧
      (sameNodes found script = true ↔
        ∀ statement ∈ script, InFragment .constants .statement statement) := by
  have hread : ∀ statement ∈ script, ReadFor .statement statement statement.asRead :=
    fun statement h => readFor_asRead (hscript statement h).1
  have hback : ∀ statement ∈ script.map Node.asRead,
      InFragment .constants .statement statement ∧ statement.height ≤ 31 := by
    refine forall_mem_map.2 fun statement h => ⟨(hread statement h).fragment, ?_⟩
    rw [(hread statement h).height]
    exact Nat.le_succ_of_le (hscript statement h).2
  obtain ⟨found, hparse, hbare⟩ :=
    parseText_renderScript file (fun statement h => (hscript statement h).1) (by decide) hback
      (spelledBody_map (fun statement h => (hread statement h).spelled 0) .tight)
  refine ⟨found, hparse, sameNodes_of_bareAll_eq hbare, ?_⟩
  -- The lines of what is read do not count, so the statements can be compared one by one.
  rw [sameNodes_congr_of_bareAll_eq hbare, sameNodes_map_asRead]
  exact forall₂_congr fun statement h => same_asRead_iff (hscript statement h).1

/-- `Foo(Bar())`: the outer call is kept, the inner one is read as a constant. -/
def nestedCalls : Node := ⟨.call none "Foo" [⟨.call none "Bar" [] false, 1⟩] false, 1⟩

theorem script_read_back_iff_nestedCalls :
    (∀ statement ∈ [nestedCalls],
      InFragment .calls .statement statement ∧ statement.height ≤ 30) ∧
    ∃ found, parseText "Fastfile" (renderScript [nestedCalls]) = .ok found ∧
      sameNodes found [nestedCalls.asRead] = true ∧
      (sameNodes found [nestedCalls] = true ↔
        ∀ statement ∈ [nestedCalls], InFragment .constants .statement statement) := by
  have hnames : ∀ name ∈ ["Foo", "Bar"], IsConstantName name := by decide +kernel
  have hscript : ∀ statement ∈ [nestedCalls],
      InFragment .calls .statement statement ∧ statement.height ≤ 30 := by
    refine forall_mem_singleton.2 ⟨.statement (.call 1 ?_ ?_), by decide⟩
    · exact .inr ⟨hnames "Foo" (by simp), by decide, nofun⟩
    · refine forall_mem_singleton.2 (.call 1 (.inr ⟨hnames "Bar" (by simp), ?_⟩) (by simp))
      exact ⟨by decide, fun _ => rfl⟩
  exact ⟨hscript, script_read_back_iff _ hscript⟩

/-- **Not every script comes back** from the text that is written for it: `Foo()` is written as
`Foo`. -/
theorem not_every_script_read_back :
    ¬ ∀ file source script, parseText file source = .ok script →
      ∃ found, parseText file (renderScript script) = .ok found ∧
        sameNodes found script = true := by
  intro hall
  -- One evaluation of the whole way there and back; its outcome contradicts `hall`.
  have hlost : (do
      let script ← parseText "Fastfile" "Foo()"
      let found ← parseText "Fastfile" (renderScript script)
      return sameNodes found script) = .ok false := by
    decide +kernel
  cases hsource : parseText "Fastfile" "Foo()" with
  | error failure => simp [hsource, bind, Except.bind] at hlost
  | ok script =>
    obtain ⟨found, hfound, hsame⟩ := hall _ _ _ hsource
    simp [hsource, hfound, hsame, bind, Except.bind, pure, Except.pure] at hlost

end LaneScript
