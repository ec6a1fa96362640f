import LaneScript.Proofs.LiteralNesting

/-!
# Readers that keep the discipline

What has been read so far in a scope is kept as a `Content`.  `Accounts d seen outer content scopes`
ties it to the stack of scopes: whatever the stack shows was seen before or is bound in the content,
each variable that the content uses is one of these, and the nodes of the content fit the level `d`.

`Follows d before p after Q` says of a reader that it restores the state, that it takes accounts of
`before` to accounts of `after`, what it returns included, and that what it returns has the property
`Q`.  This holds along a sequence of readers, `Follows.bind`, and a new scope of the stack becomes a
region of the content, `follows_withScope`.  The state is restored whether or not the content
accounts for it.
-/

namespace LaneScript

open LaneScript.Parser

/-! ### Contents that stand for others -/

namespace Content

/-- At the level, a content stands for another that binds no more and needs no less to be visible
and to fit. -/
structure StandsFor (d : ReadingLevel) (e c : Content) : Prop where
  binds : ∀ name, c.Binds name → e.Binds name
  needs : ∀ visible, c.Scoped visible → e.Scoped visible
  fits : c.Fits d → e.Fits d

namespace StandsFor

variable {d : ReadingLevel} {c e : Content}

theorem refl (c : Content) : StandsFor d c c := ⟨fun _ => id, fun _ => id, id⟩

theorem trans {c' : Content} (h : StandsFor d c' e) (h' : StandsFor d e c) : StandsFor d c' c :=
  ⟨fun name hname => h.binds name (h'.binds name hname),
    fun visible hvisible => h.needs visible (h'.needs visible hvisible),
    fun hfits => h.fits (h'.fits hfits)⟩

/-- Contents side by side are stood for side by side. -/
theorem append {c' e' : Content} (h : StandsFor d e c) (h' : StandsFor d e' c') :
    StandsFor d (e ++ e') (c ++ c') := by
  refine ⟨fun name hname => ?_, fun visible hvisible => ?_, fun hfits => ?_⟩
  · rw [binds_append] at hname ⊢
    exact hname.imp (h.binds name) (h'.binds name)
  · rw [scoped_append] at hvisible ⊢
    exact hvisible.imp (h.needs visible) (h'.needs visible)
  · rw [fits_append] at hfits ⊢
    exact hfits.imp h.fits h'.fits

/-- The parts of a form may be taken for the node, if it fits where they do. -/
theorem of_fits (node : Node) (h : node.form.content.Fits d → node.Fits d) :
    StandsFor d (ofNode node) node.form.content := by
  refine ⟨fun name hname => ?_, fun visible hvisible => ⟨nofun, ?_, nofun⟩, fun hfits => ?_⟩
  · exact .inr ⟨node, List.mem_singleton_self node, Node.binds_iff.2 hname⟩
  · exact List.forall_mem_singleton.2 (Node.scoped_iff.2 hvisible)
  · exact fits_ofNode.2 (h hfits)

/-- A plain node holds what its form holds. -/
theorem node (node : Node) (hform : node.form.isPlain = true) :
    StandsFor d (ofNode node) node.form.content := by
  obtain ⟨form, line⟩ := node
  exact of_fits ⟨form, line⟩ (fits_of_content line hform)

/-- What binds no name may be left out. -/
theorem nothing (h : ∀ name, ¬ c.Binds name) : StandsFor d ∅ c :=
  ⟨fun name hname => absurd hname (h name), fun _ _ => scoped_empty, fun _ => fits_empty⟩

/-- The accounts may bind more names than have been declared. -/
theorem names (names : List String) : StandsFor d (ofNames names) ∅ :=
  ⟨fun _ hname => absurd hname binds_empty, fun _ _ => scoped_ofNames _, fun _ => ⟨nofun, nofun⟩⟩

/-- The order of the nodes does not matter. -/
theorem ofNodes {nodes nodes' : List Node} (h : ∀ node, node ∈ nodes ↔ node ∈ nodes') :
    StandsFor d (ofNodes nodes') (ofNodes nodes) := by
  refine ⟨fun name hname => ?_, fun visible hvisible => ⟨nofun, ?_, nofun⟩, fun hfits => ?_⟩
  · rcases hname with hname | ⟨node, hnode, hname⟩
    · cases hname
    · exact .inr ⟨node, (h node).1 hnode, hname⟩
  · exact fun node hnode => hvisible.nodes node ((h node).2 hnode)
  · exact fits_ofNodes.2 fun node hnode => hfits.nodes node ((h node).2 hnode)

end StandsFor
end Content

/-! ### Accounts of the scopes -/

/-- The innermost scope shows nothing but what was seen before and what the content binds, each
variable that the content uses is one of these, and all nodes fit. -/
structure Accounts (d : ReadingLevel) (seen : String → Prop) (outer : List Scope)
    (content : Content) (scopes : List Scope) : Prop where
  tail : scopes.tail = outer
  sees : ∀ name, Scope.sees name scopes = true → content.Binds name ∨ seen name
  isScoped : content.Scoped fun name => content.Binds name ∨ seen name
  fits : content.Fits d

namespace Accounts

variable {d : ReadingLevel} {seen : String → Prop} {outer scopes : List Scope} {c e : Content}

/-- Nothing has been read yet. -/
theorem start (d : ReadingLevel) (scopes : List Scope) :
    Accounts d (fun name => Scope.sees name scopes = true) scopes.tail ∅ scopes :=
  ⟨rfl, fun _ => .inr, Content.scoped_empty, Content.fits_empty⟩

theorem standsFor (h : Accounts d seen outer c scopes) (he : e.StandsFor d c) :
    Accounts d seen outer e scopes := by
  refine ⟨h.tail, fun name hname => (h.sees name hname).imp_left (he.binds name), ?_,
    he.fits h.fits⟩
  refine he.needs _ (h.isScoped.mono fun name hname => ?_)
  exact hname.imp_left (he.binds name)

/-- What is read next is read where everything before it has been seen. -/
theorem append (h : Accounts d seen outer c scopes) {scopes' : List Scope}
    (he : Accounts d (fun name => c.Binds name ∨ seen name) outer e scopes') :
    Accounts d seen outer (c ++ e) scopes' := by
  refine ⟨he.tail, fun name hname => ?_, Content.scoped_append.2 ⟨?_, ?_⟩,
    Content.fits_append.2 ⟨h.fits, he.fits⟩⟩
  · rw [Content.binds_append, or_comm (a := c.Binds name), or_assoc]
    exact he.sees name hname
  · refine h.isScoped.mono fun name hname => ?_
    rw [Content.binds_append, or_assoc]
    exact hname.imp_right .inr
  · refine he.isScoped.mono fun name hname => ?_
    rwa [Content.binds_append, or_comm (a := c.Binds name), or_assoc]

/-- A variable that the innermost scope shows may be used. -/
theorem use (h : Accounts d seen outer c scopes) {name : String}
    (hname : Scope.sees name scopes = true) :
    Accounts d seen outer (c ++ ⟨[], [name], [], []⟩) scopes := by
  refine h.append ⟨h.tail, fun name hname => .inr (h.sees name hname), ⟨?_, nofun, nofun⟩,
    nofun, nofun⟩
  exact List.forall_mem_singleton.2 (.inr (h.sees name hname))

end Accounts

/-! ### Readers and accounts -/

/-- The reader restores the state, takes the scopes that the content before accounts for to such
that the content after it does, and returns something with the property. -/
def Follows {α : Type} (d : ReadingLevel) (before : Content) (p : Parser α) (after : α → Content)
    (Q : α → Prop := fun _ => True) : Prop :=
  Restores d p fun a scopes scopes' => Q a ∧ ∀ seen outer,
    Accounts d seen outer before scopes → Accounts d seen outer (after a) scopes'

/-- The reader changes no scope. -/
def Quiet {α : Type} (d : ReadingLevel) (p : Parser α) : Prop :=
  ∀ c, Follows d c p (fun _ => c)

/-- The reader comes to no end. -/
def Fails {α : Type} (d : ReadingLevel) (p : Parser α) : Prop := Restores d p fun _ _ _ => False

section Follows

variable {α β : Type} {d : ReadingLevel} {p : Parser α} {f : α → Parser β} {c e : Content}
  {g : α → Content} {h : β → Content} {Q Q' : α → Prop} {R : β → Prop}

/-- The state is restored, whatever is said of the result. -/
theorem Follows.state (hp : Follows d c p g Q) : Restores d p fun _ _ _ => True :=
  hp.mono fun _ _ _ _ => trivial

theorem Quiet.state (hp : Quiet d p) : Restores d p fun _ _ _ => True := (hp ∅).state

theorem Fails.state (hp : Fails d p) : Restores d p fun _ _ _ => True :=
  hp.mono fun _ _ _ _ => trivial

/-- What comes to no end accounts for anything. -/
theorem Fails.follows (hp : Fails d p) : Follows d c p g Q := hp.mono fun _ _ _ => False.elim

/-- Nothing is read behind a failure. -/
theorem Fails.bind (hp : Fails d p) : Follows d c (p >>= f) h R :=
  Restores.bind hp fun _ _ _ _ => False.elim

/-- The result stands for what was accounted for. -/
theorem follows_pure {a : α} (hc : (g a).StandsFor d c) (ha : Q a) : Follows d c (pure a) g Q :=
  restores_pure fun _ => ⟨ha, fun _ _ haccounts => haccounts.standsFor hc⟩

/-- The second reader starts from what the first accounts for. -/
theorem Follows.bind (hp : Follows d c p g Q) (hf : ∀ a, Q a → Follows d (g a) (f a) h R) :
    Follows d c (p >>= f) h R := by
  refine Restores.bind hp fun a s s' hs' ha => (hf a ha.1 s' hs').mono fun b scopes hb => ?_
  exact ⟨hb.1, fun seen outer haccounts => hb.2 seen outer (ha.2 seen outer haccounts)⟩

theorem Follows.mono (hp : Follows d c p g Q) (hQ : ∀ a, Q a → Q' a) : Follows d c p g Q' :=
  Restores.mono hp fun a _ _ ha => ⟨hQ a ha.1, ha.2⟩

/-- A content may give way to the one it stands for. -/
theorem Follows.standsFor (hp : Follows d e p g Q) (hc : e.StandsFor d c) : Follows d c p g Q :=
  Restores.mono hp fun _ _ _ ha =>
    ⟨ha.1, fun seen outer haccounts => ha.2 seen outer (haccounts.standsFor hc)⟩

/-- What is read anew comes behind what has been read before. -/
theorem Follows.frame (hp : Follows d ∅ p g Q) (c : Content) :
    Follows d c p (fun a => c ++ g a) Q := by
  refine Restores.mono hp fun a _ _ ha => ⟨ha.1, fun seen outer haccounts => ?_⟩
  refine haccounts.append (ha.2 _ outer ⟨haccounts.tail, ?_, Content.scoped_empty,
    Content.fits_empty⟩)
  exact fun name hname => .inr (haccounts.sees name hname)

/-- A part is read, and the rest knows of it. -/
theorem Follows.part (hp : Follows d ∅ p g Q) (hf : ∀ a, Q a → Follows d (c ++ g a) (f a) h R) :
    Follows d c (p >>= f) h R :=
  (hp.frame c).bind hf

/-- A reader that changes no scope comes before others. -/
theorem Follows.after (hp : Quiet d p) (hf : ∀ a, Follows d c (f a) h R) :
    Follows d c (p >>= f) h R :=
  (hp c).bind fun a _ => hf a

/-- The node of a form is read when its parts are. -/
theorem follows_node {form : Form} (hform : form.isPlain = true) (hc : c = form.content)
    (line : Nat) : Follows d c (pure ⟨form, line⟩) Content.ofNode := by
  subst hc
  exact follows_pure (.node ⟨form, line⟩ hform) trivial

end Follows

/-! ### The small readers -/

section Small

variable {α β : Type} {d : ReadingLevel} {p : Parser α} {f : α → Parser β} {c : Content}

theorem quiet_pure (a : α) : Quiet d (pure a : Parser α) :=
  fun _ => follows_pure (.refl _) trivial

theorem Quiet.bind (hp : Quiet d p) (hf : ∀ a, Quiet d (f a)) : Quiet d (p >>= f) :=
  fun c => .after hp fun a => hf a c

theorem Fails.quiet (hp : Fails d p) : Quiet d p := fun _ => hp.follows

/-- A look at the state. -/
theorem quiet_get : Quiet d (get : Parser State) :=
  fun _ s _ => ⟨.refl s, trivial, fun _ _ => id⟩

/-- The token is one of the input, so it is well formed if they are. -/
theorem follows_current :
    Follows d c current (fun _ => c) fun here => d.written → here.token.IsWellFormed :=
  fun s hs => ⟨.refl s, fun hwritten => hs.written hwritten _ List.mem_cons_self, fun _ _ => id⟩

theorem quiet_current : Quiet d current := fun _ => follows_current.mono fun _ _ => trivial

theorem quiet_peek (offset : Nat) : Quiet d (peek offset) := quiet_get.bind fun _ => quiet_pure _

theorem quiet_line : Quiet d line := quiet_current.bind fun _ => quiet_pure _

/-- The place may move forward. -/
theorem quiet_move {g : Cursor → Cursor} (h : ∀ cursor, (g cursor).tokens <:+ cursor.tokens) :
    Quiet d (modify fun s => { s with cursor := g s.cursor } : Parser Unit) :=
  fun _ s _ => ⟨⟨rfl, rfl, rfl, .refl _, h s.cursor⟩, trivial, fun _ _ => id⟩

/-- Going on declares nothing. -/
theorem quiet_advance : Quiet d advance := quiet_move Cursor.tokens_advance

theorem quiet_skipNewlines : Quiet d skipNewlines := quiet_move (Cursor.tokens_skip _)

theorem quiet_skipTerminators : Quiet d skipTerminators := quiet_move (Cursor.tokens_skip _)

theorem quiet_next : Quiet d next :=
  quiet_current.bind fun _ => quiet_advance.bind fun _ => quiet_pure _

/-- A reader may fail for any other reason. -/
theorem fails_fail {fault : Fault} (h : d.written → fault ≠ .unbalanced) :
    Fails d (fail fault : Parser α) :=
  fun s _ => ⟨.refl s, h⟩

theorem fails_unexpected : Fails d (unexpected : Parser α) :=
  fun s _ => ⟨.refl s, fun _ => Fault.noConfusion⟩

theorem fails_expected (what : Expectation) : Fails d (expected what : Parser α) :=
  fun s _ => ⟨.refl s, fun _ => Fault.noConfusion⟩

theorem quiet_isAt (token : Token) : Quiet d (isAt token) :=
  quiet_current.bind fun _ => quiet_pure _

theorem quiet_isAtCallParen : Quiet d isAtCallParen := quiet_current.bind fun _ => quiet_pure _

theorem quiet_startsExpression : Quiet d Parser.startsExpression :=
  quiet_current.bind fun _ => quiet_pure _

theorem quiet_eat (token : Token) : Quiet d (eat token) := by
  refine (quiet_isAt token).bind fun here => ?_
  split
  · exact quiet_advance.bind fun _ => quiet_pure _
  · exact quiet_pure _

/-- Neither does a token that has to be there. -/
theorem quiet_expect (token : Token) (text : String) : Quiet d (expect token text) := by
  refine (quiet_eat token).bind fun taken => ?_
  split
  · exact quiet_pure _
  · exact (fails_expected _).quiet

theorem quiet_takeWord : Quiet d takeWord := by
  refine quiet_current.bind fun here => ?_
  split
  · exact quiet_advance.bind fun _ => quiet_pure _
  · exact (fails_expected _).quiet

/-- A name that is a local variable may be used. -/
theorem follows_isLocal (name : String) :
    Follows d c (isLocal name) (fun bound => if bound then c ++ ⟨[], [name], [], []⟩ else c) := by
  intro s hs
  refine ⟨.refl s, trivial, fun seen outer haccounts => ?_⟩
  dsimp only
  split
  next hbound => exact haccounts.use hbound
  · exact haccounts

/-- A name that the content binds may be declared. -/
theorem follows_declare {name : String} (hname : c.Binds name) :
    Follows d c (declare name) (fun _ => c) := by
  intro s hs
  refine ⟨⟨rfl, rfl, rfl, Scope.extends_declareIn name s.scopes, List.suffix_refl _⟩, trivial,
    fun seen outer haccounts => ?_⟩
  have hdeclared : ∀ found, Scope.sees found (Scope.declareIn name s.scopes) = true →
      found = name ∨ Scope.sees found s.scopes = true := by
    intro found hfound
    cases hscopes : s.scopes with
    | nil =>
      rw [hscopes] at hfound
      exact .inr hfound
    | cons scope scopes =>
      rw [hscopes] at hfound
      simp only [Scope.declareIn, Scope.declare, Scope.sees] at hfound ⊢
      split at hfound
      · exact .inr hfound
      · simp only [List.contains_cons, Bool.or_assoc, Bool.or_eq_true, beq_iff_eq] at hfound ⊢
        exact hfound
  refine ⟨?_, fun found hfound => ?_, haccounts.isScoped, haccounts.fits⟩
  · exact (Scope.extends_declareIn name s.scopes).tail_eq.trans haccounts.tail
  · rcases hdeclared found hfound with rfl | hseen
    · exact .inl hname
    · exact haccounts.sees found hseen

/-- A name is declared, and the variable stands where it binds. -/
theorem follows_declare_target (name : String) (line : Nat) :
    Follows d ∅ (do declare name; return (⟨.localVar name, line⟩ : Node)) Node.asTarget := by
  refine Follows.standsFor (e := .ofNames [name]) ?_ (.names [name])
  exact (follows_declare (.inl (List.mem_singleton_self name))).bind fun _ _ =>
    follows_pure (.refl _) trivial

end Small

/-! ### Readers in a changed state -/

section Changed

variable {α : Type} {d : ReadingLevel} {p : Parser α} {c : Content} {g : α → Content}
  {Q : α → Prop}

/-- What is read one level deeper has room there. -/
theorem follows_nested {p : Parser Node} {P : Node → Prop}
    (hp : Follows d.deeper ∅ p Content.ofNode P) :
    Follows d ∅ (nested p) Content.ofNode fun node => node.FitsDeeper d := by
  refine Restores.mono (Restores.nested hp) fun node scopes scopes' hnode => ?_
  obtain ⟨hlt, -, hinner⟩ := hnode
  refine ⟨⟨hlt, Content.fits_ofNode.1 (hinner _ _ (.start d.deeper scopes)).fits⟩, ?_⟩
  intro seen outer haccounts
  have hdeeper := hinner seen outer { haccounts with fits := Content.fits_empty }
  exact { hdeeper with fits := hdeeper.fits.shallower hlt }

/-- Who owns a `do` makes no difference to the scopes. -/
theorem Follows.allowingDo (hp : Follows d c p g Q) : Follows d c (allowingDo p) g Q :=
  Restores.allowingDo hp

theorem Follows.leavingDo (hp : Follows d c p g Q) : Follows d c (leavingDo p) g Q :=
  Restores.leavingDo hp

theorem Follows.closedByPipe (hp : Follows d c p g Q) : Follows d c (closedByPipe p) g Q :=
  Restores.closedByPipe hp

/-- What is read in a new scope is a region: nothing of it is seen outside, and it sees what is
around it unless the scope is hard. -/
theorem follows_withScope {region : α → Region} {hard : Bool}
    (hp : Follows d ∅ p (fun a => (region a).content) Q) (hhard : ∀ a, (region a).hard = hard) :
    Follows d c (withScope hard p) (fun a => c ++ .ofRegion (region a)) Q := by
  refine Restores.withScope hp fun a scopes inner ha => ⟨ha.1, fun seen outer haccounts => ?_⟩
  have hregion := ha.2 _ _ (.start d (Scope.empty hard :: scopes))
  refine haccounts.append ⟨haccounts.tail, fun name hname => .inr (haccounts.sees name hname),
    ⟨nofun, nofun, ?_⟩, Content.fits_ofRegion.2 hregion.fits.nodes⟩
  refine List.forall_mem_singleton.2 fun part hpart => ?_
  -- behind the names of the region itself, a soft scope shows what the stack showed before it
  refine (hregion.isScoped.nodes part hpart).mono fun name hname => hname.imp_right fun hsees => ?_
  simp only [Scope.sees, Scope.empty, List.contains_nil, Bool.false_or, Bool.and_eq_true,
    Bool.not_eq_true'] at hsees
  refine ⟨(hhard a).trans hsees.1, ?_⟩
  exact .inr (haccounts.sees name hsees.2)

end Changed
end LaneScript
