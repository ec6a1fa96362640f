import LaneScript.Proofs.StringBodies
import LaneScript.Proofs.StringEscape

/-!
# Strings with code read back

Between two quotes a string is written part by part: a text with its escapes, and code between
`#{` and `}`.  The scanner finds the same parts again, whatever they hold: a text ends in front of
the number sign that opens code, even where it ends in such a sign itself, and code ends at the
brace that closes it.

For the latter the braces of the code have to match.  `IsBalanced` says so: those in a section
between quotes do not count, and such a section is closed.

* `closingBrace_balanced` — code that is balanced ends where it was written to end.
* `scanPieces_written` — the pieces of the written parts, by induction on the parts.
* `joinAfter_piecesFrom` — the pieces are joined to the parts that they came from.
-/

namespace LaneScript

open Literal
open List

/-! ### The end of code -/

/-- What stands behind the quote that opens a section, up to the same quote.  A backslash takes the
next character with it. -/
inductive IsQuotedEnd (quote : Char) : List Char → Prop where
  | close : IsQuotedEnd quote [quote]
  | escaped (c : Char) {rest : List Char} (h : IsQuotedEnd quote rest) :
      IsQuotedEnd quote ('\\' :: c :: rest)
  | plain {c : Char} {rest : List Char} (hback : c ≠ '\\') (hquote : c ≠ quote)
      (h : IsQuotedEnd quote rest) : IsQuotedEnd quote (c :: rest)

/-- Code whose braces match, those between quotes apart. -/
inductive IsBalanced : List Char → Prop where
  | nil : IsBalanced []
  | plain {c : Char} {code : List Char} (hc : c ∉ ['{', '}', '"', '\'']) (h : IsBalanced code) :
      IsBalanced (c :: code)
  | braces {inner code : List Char} (hinner : IsBalanced inner) (h : IsBalanced code) :
      IsBalanced ('{' :: inner ++ '}' :: code)
  | quoted {quote : Char} {quotedEnd code : List Char} (hquote : quote ∈ ['"', '\''])
      (hend : IsQuotedEnd quote quotedEnd) (h : IsBalanced code) :
      IsBalanced (quote :: quotedEnd ++ code)

theorem closingBraceFrom_quotedEnd {quote : Char} (hquote : quote ≠ '\\') (depth : Nat)
    {quotedEnd : List Char} (h : IsQuotedEnd quote quotedEnd) (more : List Char) :
    closingBraceFrom (.inQuotes quote depth) (quotedEnd ++ more) =
      (closingBraceFrom (.plain depth) more).map (· + quotedEnd.length) := by
  induction h with
  | close => simp [closingBraceFrom, hquote]
  | escaped c h ih =>
    simp [closingBraceFrom, ih, Option.map_map, Function.comp_def, Nat.add_assoc]
  | plain hback hne h ih =>
    simp [closingBraceFrom, hback, hne, ih, Option.map_map, Function.comp_def, Nat.add_assoc]

/-- The walk over balanced code comes back to the depth at which it started. -/
theorem closingBraceFrom_balanced {code : List Char} (h : IsBalanced code) (depth : Nat)
    (more : List Char) :
    closingBraceFrom (.plain depth) (code ++ more) =
      (closingBraceFrom (.plain depth) more).map (· + code.length) := by
  induction h generalizing depth more with
  | nil => simp
  | @plain c code hc h ih =>
    simp only [mem_cons, not_mem_nil, or_false, not_or] at hc
    simp [closingBraceFrom_plain, hc, ih, Option.map_map, Function.comp_def, Nat.add_assoc]
  | @braces inner code hinner h ihinner ih =>
    -- one level further in, and back again at the brace behind the inner code
    simp [closingBraceFrom_plain, ihinner, ih, Option.map_map, Function.comp_def]
    congr 1
    funext n
    omega
  | @quoted quote quotedEnd code hquote hend h ih =>
    have hne : quote ≠ '{' ∧ quote ≠ '}' ∧ quote ≠ '\\' ∧ (quote = '"' ∨ quote = '\'') := by
      revert quote
      simp
    simp [closingBraceFrom_plain, hne, closingBraceFrom_quotedEnd hne.2.2.1 depth hend, ih,
      Option.map_map, Function.comp_def]
    congr 1
    funext n
    omega

theorem closingBrace_balanced {code : List Char} (h : IsBalanced code) (more : List Char) :
    closingBrace (code ++ '}' :: more) = some code.length := by
  rw [closingBrace, closingBraceFrom_balanced h]
  simp [closingBraceFrom]

/-! ### Written parts -/

/-- A part as it is written between the given quotes. -/
def StringPart.written (quote : Char) : StringPart → List Char
  | .text content => (escape quote content).toList
  | .code source _ => '#' :: '{' :: source.toList ++ ['}']

/-- The code of a part. -/
def StringPart.sourceChars : StringPart → List Char
  | .text _ => []
  | .code source _ => source.toList

/-- The parts with the lines on which their code starts, when the first of them starts on the given
one.  Only code goes over a line end, since that of a text is escaped. -/
def partsFrom (line : Nat) : List StringPart → List StringPart
  | [] => []
  | .text content :: parts => .text content :: partsFrom line parts
  | .code source _ :: parts =>
    .code source line :: partsFrom (line + newlinesOf source.toList) parts

/-- The pieces of some parts that start on the given line. -/
def piecesFrom (line : Nat) : List StringPart → List Piece
  | [] => []
  | .text content :: parts => content.toList.map .char ++ piecesFrom line parts
  | .code source _ :: parts =>
    .code source line :: piecesFrom (line + newlinesOf source.toList) parts

theorem scanPieces_code {q : Char} (hq : IsQuote q) (line : Nat) {code : List Char}
    (hcode : IsBalanced code) (tail : List Char) :
    scanPieces (some q) true line ('#' :: '{' :: code ++ '}' :: tail) =
      (scanPieces (some q) true (line + newlinesOf code) tail).map fun found =>
        (.code (String.ofList code) line :: found.1,
          ⟨code.length + 3 + found.2.length, newlinesOf code + found.2.newlines⟩) := by
  have hclose : (some '#' == some q) = false := by
    rcases hq with rfl | rfl <;> rfl
  have hsource : (code ++ '}' :: tail).take code.length = code := take_left
  have hdrop : (code ++ '}' :: tail).drop (code.length + 1) = tail := by
    rw [← drop_drop, drop_left]
    rfl
  rw [cons_append, cons_append, scanPieces]
  simp only [hclose, head?_cons, drop_succ_cons, drop_zero,
    closingBrace_balanced hcode, hsource, hdrop]
  cases scanPieces (some q) true (line + newlinesOf code) tail <;> rfl

/-- What is written behind a text starts with the sign that opens code, or is the quote. -/
theorem head?_written_ne {q : Char} (hq : IsQuote q) {content : String} {parts : List StringPart}
    (hdivided : (.text content :: parts).IsChain
      fun part next => ¬ (part.isText = true ∧ next.isText = true)) (more : List Char) :
    (parts.flatMap (·.written q) ++ q :: more).head? ≠ some '{' := by
  cases parts with
  | nil => exact hq.head?_ne more
  | cons next parts =>
    cases next with
    | text content' => exact absurd ⟨rfl, rfl⟩ (isChain_cons_cons.1 hdivided).1
    | code source line => simp [StringPart.written]

/-- The scanner finds the pieces of the parts, and takes what was written for them and the quote. -/
theorem scanPieces_written {q : Char} (hq : IsQuote q) (more : List Char) {parts : List StringPart}
    (hdivided : parts.IsChain fun part next => ¬ (part.isText = true ∧ next.isText = true))
    (hcodes : ∀ part ∈ parts, IsBalanced part.sourceChars) (line : Nat) :
    scanPieces (some q) true line (parts.flatMap (·.written q) ++ q :: more) =
      .ok (piecesFrom line parts, ⟨(parts.flatMap (·.written q)).length + 1,
        newlinesOf (parts.flatMap (·.sourceChars))⟩) := by
  induction parts generalizing line with
  | nil => exact scanPieces_close q line more
  | cons part parts ih =>
    obtain ⟨hpart, hparts⟩ := forall_mem_cons.1 hcodes
    have ih := ih hdivided.tail hparts
    rw [flatMap_cons, List.append_assoc]
    cases part with
    | text content =>
      have htail := head?_written_ne hq hdivided more
      rw [StringPart.written, escape, scanPieces_escapeChars hq line htail, ih,
        ← String.length_toList]
      simp [Except.map, withChars, piecesFrom, StringPart.sourceChars, Nat.add_assoc]
    | code source codeLine =>
      have hsource : IsBalanced source.toList := hpart
      rw [StringPart.written, List.append_assoc, singleton_append,
        scanPieces_code hq line hsource, ih]
      simp [Except.map, piecesFrom, StringPart.sourceChars, newlinesOf]
      omega

theorem joinAfter_code {pending : List Char} (h : pending ≠ []) (source : String) (line : Nat)
    (pieces : List Piece) :
    joinAfter pending (.code source line :: pieces) =
      .text (String.ofList pending.reverse) :: joinAfter [] (.code source line :: pieces) := by
  simp [joinAfter, h]

theorem joinAfter_piecesFrom {parts : List StringPart} (htexts : .text "" ∉ parts)
    (hdivided : parts.IsChain fun part next => ¬ (part.isText = true ∧ next.isText = true))
    (line : Nat) : joinAfter [] (piecesFrom line parts) = partsFrom line parts := by
  induction parts generalizing line with
  | nil => rfl
  | cons part parts ih =>
    obtain ⟨hpart, hparts⟩ := not_or.1 (mt mem_cons.2 htexts)
    have ih := ih hparts hdivided.tail
    cases part with
    | code source codeLine => exact congrArg (_ :: ·) (ih _)
    | text content =>
      have hcontent : content ≠ "" := Ne.symm (mt (congrArg StringPart.text) hpart)
      have hne : content.toList.reverse ≠ [] := by
        simpa using hcontent
      rw [piecesFrom, joinAfter_map_char, append_nil]
      cases parts with
      | nil => simp [joinAfter, piecesFrom, partsFrom, hcontent]
      | cons next parts =>
        cases next with
        | text content' => exact absurd ⟨rfl, rfl⟩ (isChain_cons_cons.1 hdivided).1
        | code source codeLine =>
          rw [piecesFrom, joinAfter_code hne, reverse_reverse, String.ofList_toList]
          exact congrArg (_ :: ·) (ih line)

/-! ### Strings -/

/-- **A written string reads back.**  The scanner finds the parts that were written, each code on
the line it starts on, or one empty text where there are none; it takes what was written for them
and the closing quote, and counts the line ends of the code. -/
theorem string_reads_back {q : Char} (hq : q = '"' ∨ q = '\x60') (line : Nat)
    {parts : List StringPart} (htexts : .text "" ∉ parts)
    (hdivided : parts.IsChain fun part next => ¬ (part.isText = true ∧ next.isText = true))
    (hcodes : ∀ part ∈ parts, IsBalanced part.sourceChars) (more : List Char) :
    scanBody (some q) true line (parts.flatMap (·.written q) ++ q :: more) =
      .ok (if parts = [] then [.text ""] else partsFrom line parts,
        ⟨(parts.flatMap (·.written q)).length + 1,
          newlinesOf (parts.flatMap (·.sourceChars))⟩) := by
  have hjoin := joinAfter_piecesFrom htexts hdivided line
  have hparts : joinPieces (piecesFrom line parts) =
      if parts = [] then [.text ""] else partsFrom line parts := by
    rw [joinPieces, hjoin]
    cases parts with
    | nil => rfl
    | cons part parts =>
      rw [if_neg (cons_ne_nil _ _), if_neg]
      -- without a piece there would be no part
      intro hnil
      rw [List.isEmpty_iff.1 hnil] at hjoin
      cases part <;> cases hjoin
  rw [scanBody, scanPieces_written hq more hdivided hcodes, ← hparts]
  rfl

/-- A text that ends in a number sign in front of code.  The code has a line end and a quoted brace
between its braces. -/
theorem string_reads_back_seam :
    IsBalanced "f \x7b'\x7d'\n\x7d".toList ∧
      scanBody (some '"') true 3 "\\\"##\x7bf \x7b'\x7d'\n\x7d\x7d\" + x".toList =
        .ok ([.text "\"#", .code "f \x7b'\x7d'\n\x7d" 3], ⟨15, 1⟩) := by
  have hquoted : IsQuotedEnd '\'' ['}', '\''] := .plain (by decide) (by decide) .close
  have hinner : IsBalanced "'\x7d'\n".toList :=
    .quoted (by decide) hquoted (.plain (by decide) .nil)
  have hcode : IsBalanced "f \x7b'\x7d'\n\x7d".toList :=
    .plain (by decide) (.plain (by decide) (.braces hinner .nil))
  have hcodes : ∀ part ∈ [StringPart.text "\"#", .code "f \x7b'\x7d'\n\x7d" 0],
      IsBalanced part.sourceChars :=
    forall_mem_cons.2 ⟨.nil, forall_mem_singleton.2 hcode⟩
  exact ⟨hcode, string_reads_back (.inl rfl) 3 (by decide) (by decide) hcodes " + x".toList⟩

end LaneScript
