import LaneScript.Grammar.Sequence
import LaneScript.Proofs.TreeLines

/-!
# Keyword arguments in one hash

Among the arguments of a call, pairs and double splats become the entries of one hash, at the place
of the first of them, and all others stay (`groupKeywords_eq_insertIdx`).

The same list comes from one pass, a `Gathering`: the first entry leaves a hash whose place is kept,
and each further one is added to the node at this place, while the list grows behind it.  If that
node were no hash, the entry would be lost.  It always is one (`hasHash_ofArgs`), since at every
argument the pass has the grouping of those before it (`add_grouped`, `ofArgs_eq_grouped`).
-/

namespace LaneScript

open List

variable {args : List Node} {first : Node}

theorem groupKeywords_append (hargs : ∀ arg ∈ args, arg.isKeywordEntry = false)
    (entries : List Node) : groupKeywords (args ++ entries) = args ++ groupKeywords entries := by
  induction args with
  | nil => rfl
  | cons arg args ih =>
    obtain ⟨harg, hargs⟩ := forall_mem_cons.1 hargs
    rw [cons_append, groupKeywords, harg, ih hargs]
    rfl

/-- Without pairs there is nothing to gather. -/
theorem groupKeywords_values (hargs : ∀ arg ∈ args, arg.isKeywordEntry = false) :
    groupKeywords args = args := by
  have happend := groupKeywords_append hargs []
  rwa [append_nil, groupKeywords, append_nil] at happend

/-- Pairs that stand together are one hash. -/
theorem groupKeywords_entries {entry : Node} {entries : List Node}
    (h : ∀ node ∈ entry :: entries, node.isKeywordEntry = true) :
    groupKeywords (entry :: entries) = [⟨.hash (entry :: entries) false, entry.line⟩] := by
  obtain ⟨hentry, hentries⟩ := forall_mem_cons.1 h
  have hothers : entries.filter (!·.isKeywordEntry) = [] := by
    rw [filter_eq_nil_iff]
    intro node hnode
    simp [hentries node hnode]
  rw [groupKeywords, if_pos hentry, filter_eq_self.2 hentries, hothers]

/-- Gathering the pairs does not look at lines. -/
theorem groupKeywords_mapLinesAll (f : Nat → Nat) (args : List Node) :
    groupKeywords (mapLinesAll f args) = mapLinesAll f (groupKeywords args) := by
  have hentry : ∀ node : Node, (node.mapLines f).isKeywordEntry = node.isKeywordEntry := by
    rintro ⟨form, line⟩
    cases form <;> rfl
  have hfilter : ∀ (keep : Node → Bool), (∀ node : Node, keep (node.mapLines f) = keep node) →
      ∀ nodes, (mapLinesAll f nodes).filter keep = mapLinesAll f (nodes.filter keep) := by
    intro keep hkeep nodes
    rw [mapLinesAll_eq_map, mapLinesAll_eq_map, filter_map]
    congr 2
    funext node
    exact hkeep node
  induction args with
  | nil => rfl
  | cons arg others ih =>
    rw [mapLinesAll, groupKeywords, groupKeywords, hentry, ih, hfilter _ hentry,
      hfilter _ fun node => congrArg (!·) (hentry node)]
    obtain ⟨form, line⟩ := arg
    split <;> rfl

/-- The hash stands among the others where the first entry was. -/
theorem groupKeywords_eq_insertIdx (h : args.find? Node.isKeywordEntry = some first) :
    groupKeywords args =
      (args.filter (!·.isKeywordEntry)).insertIdx (args.findIdx Node.isKeywordEntry)
        ⟨.hash (args.filter Node.isKeywordEntry) false, first.line⟩ := by
  induction args with
  | nil => cases h
  | cons arg args ih =>
    by_cases harg : arg.isKeywordEntry = true
    · obtain rfl : arg = first := by simpa [harg] using h
      simp [groupKeywords, harg, findIdx_cons]
    · have ih := ih (by simpa [harg] using h)
      simp [groupKeywords, harg, findIdx_cons, ih]

theorem isKeywordEntry_groupKeywords (args : List Node) :
    ∀ arg ∈ groupKeywords args, arg.isKeywordEntry = false := by
  fun_induction groupKeywords args with
  | case1 => simp
  | case2 arg others harg => simp [Node.isKeywordEntry]
  | case3 arg others harg ih => simpa [harg] using ih

theorem sublist_groupKeywords (args : List Node) :
    (args.filter (!·.isKeywordEntry)).Sublist (groupKeywords args) := by
  fun_induction groupKeywords args with
  | case1 => exact .slnil
  | case2 arg others harg =>
    rw [filter_cons_of_neg (by simp [harg])]
    exact sublist_cons_self _ _
  | case3 arg others harg ih =>
    rw [filter_cons_of_pos (by simp [harg])]
    exact ih.cons_cons arg

/-! ### One pass over the arguments -/

/-- The node with one more entry, if it is a hash.  Any other node stays as it is. -/
def Node.withEntry (entry node : Node) : Node :=
  match node.form with
  | .hash entries braced => { node with form := .hash (entries ++ [entry]) braced }
  | _ => node

/-- The arguments that a pass has put down, and the place of the hash among them. -/
structure Gathering where
  args : List Node
  hashAt : Option Nat

namespace Gathering

/-- Puts down one more argument, or adds it to the hash. -/
def add (gathering : Gathering) (arg : Node) : Gathering :=
  if arg.isKeywordEntry then
    match gathering.hashAt with
    | some place => { gathering with args := gathering.args.modify place (Node.withEntry arg) }
    | none => ⟨gathering.args ++ [⟨.hash [arg] false, arg.line⟩], some gathering.args.length⟩
  else { gathering with args := gathering.args ++ [arg] }

/-- A pass over all arguments. -/
def ofArgs (args : List Node) : Gathering := args.foldl add ⟨[], none⟩

/-- At the place that is kept there is a hash without braces. -/
def HasHash (gathering : Gathering) : Prop :=
  ∀ place, gathering.hashAt = some place →
    ∃ entries line, gathering.args[place]? = some ⟨.hash entries false, line⟩

/-- The grouped arguments and the place of the first entry. -/
def grouped (args : List Node) : Gathering :=
  ⟨groupKeywords args, args.findIdx? Node.isKeywordEntry⟩

/-- The gathering with an argument before all others. -/
def behind (first : Node) (gathering : Gathering) : Gathering :=
  ⟨first :: gathering.args, gathering.hashAt.map (· + 1)⟩

theorem grouped_cons (hfirst : first.isKeywordEntry = false) (args : List Node) :
    grouped (first :: args) = (grouped args).behind first := by
  simp [grouped, behind, groupKeywords, hfirst, findIdx?_cons]

theorem add_behind (gathering : Gathering) (first arg : Node) :
    (gathering.behind first).add arg = (gathering.add arg).behind first := by
  obtain ⟨args, _ | place⟩ := gathering <;> simp only [add, behind, Option.map] <;> split <;> rfl

/-- One more argument keeps the grouping. -/
theorem add_grouped (args : List Node) (arg : Node) :
    (grouped args).add arg = grouped (args ++ [arg]) := by
  induction args with
  | nil =>
    by_cases harg : arg.isKeywordEntry = true <;> simp [grouped, add, groupKeywords, harg]
  | cons first args ih =>
    by_cases hfirst : first.isKeywordEntry = true
    · -- the hash is at the front and takes the entry
      by_cases harg : arg.isKeywordEntry = true <;>
        simp [grouped, add, groupKeywords, hfirst, harg, findIdx?_cons, Node.withEntry]
    · rw [Bool.not_eq_true] at hfirst
      rw [grouped_cons hfirst, add_behind, ih, cons_append, grouped_cons hfirst]

theorem foldl_add_grouped (args more : List Node) :
    more.foldl add (grouped args) = grouped (args ++ more) := by
  induction more generalizing args with
  | nil => rw [append_nil, foldl_nil]
  | cons arg more ih => rw [foldl_cons, add_grouped, ih, ← append_cons]

theorem ofArgs_eq_grouped (args : List Node) : ofArgs args = grouped args :=
  foldl_add_grouped [] args

theorem hasHash_ofArgs (args : List Node) : (ofArgs args).HasHash := by
  rw [ofArgs_eq_grouped]
  induction args with
  | nil => rintro _ ⟨⟩
  | cons first args ih =>
    by_cases hfirst : first.isKeywordEntry = true
    · simp [HasHash, grouped, groupKeywords, hfirst, findIdx?_cons]
    · rw [Bool.not_eq_true] at hfirst
      rw [grouped_cons hfirst]
      intro _ hmoved
      obtain ⟨place, hplace, rfl⟩ := Option.map_eq_some_iff.1 hmoved
      exact ih place hplace

end Gathering

/-! ### The grouped arguments -/

/-- A hash, with braces or without. -/
def Node.isHash (node : Node) : Bool :=
  match node.form with
  | .hash _ _ => true
  | _ => false

/-- **Grouping keyword arguments loses nothing.**  One pass over the arguments groups them, and has
a hash for every entry.  The hashes among the arguments stay as they are, and grouped arguments have
nothing to group. -/
theorem keywords_grouped (args : List Node) :
    ((∀ arg ∈ args, arg.isKeywordEntry = false) → groupKeywords args = args) ∧
      (∀ first, args.find? Node.isKeywordEntry = some first →
        groupKeywords args =
          (args.filter (!·.isKeywordEntry)).insertIdx (args.findIdx Node.isKeywordEntry)
            ⟨.hash (args.filter Node.isKeywordEntry) false, first.line⟩) ∧
      (Gathering.ofArgs args).args = groupKeywords args ∧
      (∀ before, before <+: args → (Gathering.ofArgs before).HasHash) ∧
      (args.filter Node.isHash).Sublist (groupKeywords args) ∧
      groupKeywords (groupKeywords args) = groupKeywords args := by
  refine ⟨groupKeywords_values, fun first => groupKeywords_eq_insertIdx, ?_, ?_, ?_, ?_⟩
  · rw [Gathering.ofArgs_eq_grouped]
    rfl
  · exact fun before _ => Gathering.hasHash_ofArgs before
  -- a hash is no entry, so it is among the arguments that stay
  · have hhashes : args.filter Node.isHash =
        (args.filter (!·.isKeywordEntry)).filter Node.isHash := by
      rw [filter_filter]
      refine filter_congr fun arg _ => ?_
      obtain ⟨form, line⟩ := arg
      cases form <;> rfl
    rw [hhashes]
    exact filter_sublist.trans (sublist_groupKeywords args)
  · exact groupKeywords_values (isKeywordEntry_groupKeywords args)

/-- A pair, a hash with braces and a double splat behind a value. -/
def mixedArguments : List Node :=
  [⟨.int 1, 1⟩, ⟨.pair ⟨.sym "a", 1⟩ ⟨.int 2, 1⟩, 1⟩, ⟨.hash [] true, 2⟩,
    ⟨.doubleSplat ⟨.localVar "b", 2⟩, 2⟩]

theorem keywords_grouped_mixedArguments :
    groupKeywords [⟨.int 1, 1⟩] = [⟨.int 1, 1⟩] ∧
      groupKeywords mixedArguments =
        [⟨.int 1, 1⟩, ⟨.hash [⟨.pair ⟨.sym "a", 1⟩ ⟨.int 2, 1⟩, 1⟩,
          ⟨.doubleSplat ⟨.localVar "b", 2⟩, 2⟩] false, 1⟩, ⟨.hash [] true, 2⟩] ∧
      (Gathering.ofArgs (mixedArguments.take 3)).HasHash := by
  obtain ⟨hvalues, -⟩ := keywords_grouped [⟨.int 1, 1⟩]
  obtain ⟨-, hgrouped, -, hhash, -⟩ := keywords_grouped mixedArguments
  exact ⟨hvalues (forall_mem_singleton.2 rfl), hgrouped _ rfl,
    hhash _ (List.take_prefix 3 mixedArguments)⟩

end LaneScript
