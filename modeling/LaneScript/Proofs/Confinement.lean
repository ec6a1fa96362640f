import LaneScript.Proofs.LoaderRuns

/-!
# What imports may read

A provider is watched while a script is loaded: `Provider.recorded` answers as the provider does and
writes down each question that it is asked.  The trace of a run shows every path that was handed to
the provider, in order, also when the run fails.

* `imports_confined` — whatever a script and its imports ask for, each path that is read to follow
  an import is one whose canonical path was asked for immediately before and lies inside of the
  sandbox root; and every imported script lies inside of it.

A provider is any three functions, so nothing is assumed of what it answers: two paths of one script
may have different canonical paths, and a path that is canonical need not be readable.  What carries
the proof is the form of a trace, `Guarded`: a reading only ever stands behind the question that
cleared it.  A run of a loader adds a guarded trace, `Confined`, and this is kept by sequencing.
-/

namespace LaneScript

/-! ### Recorded providers -/

/-- A question to a provider. -/
inductive ProviderCall where
  | read (path : Path)
  | resolve (base : Path) (path : String)
  | canonical (path : Path)
  deriving DecidableEq, Repr

/-- Answers a question after writing it down. -/
def ProviderCall.answered {α : Type} (call : ProviderCall) (answer : α) :
    StateM (List ProviderCall) α := do
  modify (· ++ [call])
  return answer

/-- The provider with a record of what it was asked. -/
def Provider.recorded (provider : Provider Id) : Provider (StateM (List ProviderCall)) where
  read path := (ProviderCall.read path).answered (provider.read path)
  resolve base path := (ProviderCall.resolve base path).answered (provider.resolve base path)
  canonical path := (ProviderCall.canonical path).answered (provider.canonical path)

/-- A trace of questions in which every reading stands behind the question for the canonical path
of what is read, and is allowed. -/
inductive Guarded (allowed : Path → Prop) : List ProviderCall → Prop where
  | nil : Guarded allowed []
  | resolve (base : Path) (path : String) {calls : List ProviderCall} :
    Guarded allowed calls → Guarded allowed (.resolve base path :: calls)
  | canonical (path : Path) {calls : List ProviderCall} :
    Guarded allowed calls → Guarded allowed (.canonical path :: calls)
  | read {path : Path} {calls : List ProviderCall} :
    allowed path → Guarded allowed calls → Guarded allowed (.canonical path :: .read path :: calls)

namespace Guarded

variable {allowed : Path → Prop} {calls others : List ProviderCall}

theorem append (h : Guarded allowed calls) (ho : Guarded allowed others) :
    Guarded allowed (calls ++ others) := by
  induction h with
  | nil => exact ho
  | resolve base path _ ih => exact .resolve base path ih
  | canonical path _ ih => exact .canonical path ih
  | read hallowed _ ih => exact .read hallowed ih

theorem mono {allowed' : Path → Prop} (h : Guarded allowed calls)
    (himp : ∀ path, allowed path → allowed' path) : Guarded allowed' calls := by
  induction h with
  | nil => exact .nil
  | resolve base path _ ih => exact .resolve base path ih
  | canonical path _ ih => exact .canonical path ih
  | read hallowed _ ih => exact .read (himp _ hallowed) ih

/-- A reading is allowed, and stands right behind the question for its canonical path. -/
theorem before_read (h : Guarded allowed calls) {before after : List ProviderCall} {path : Path}
    (hsplit : calls = before ++ .read path :: after) :
    allowed path ∧ ∃ earlier, before = earlier ++ [.canonical path] := by
  -- the reading is in the first group of calls, or behind it
  induction h generalizing before with
  | nil => simp at hsplit
  | resolve base text _ ih =>
    cases before with
    | nil => cases hsplit
    | cons first before =>
      obtain ⟨rfl, hrest⟩ := List.cons.inj hsplit
      obtain ⟨hallowed, earlier, rfl⟩ := ih hrest
      exact ⟨hallowed, .resolve base text :: earlier, rfl⟩
  | canonical asked _ ih =>
    cases before with
    | nil => cases hsplit
    | cons first before =>
      obtain ⟨rfl, hrest⟩ := List.cons.inj hsplit
      obtain ⟨hallowed, earlier, rfl⟩ := ih hrest
      exact ⟨hallowed, .canonical asked :: earlier, rfl⟩
  | @read asked calls hallowed _ ih =>
    cases before with
    | nil => cases hsplit
    | cons first before =>
      obtain ⟨rfl, hrest⟩ := List.cons.inj hsplit
      cases before with
      | nil =>
        obtain ⟨hread, -⟩ := List.cons.inj hrest
        cases hread
        exact ⟨hallowed, [], rfl⟩
      | cons second before =>
        obtain ⟨rfl, hbehind⟩ := List.cons.inj hrest
        obtain ⟨hfound, earlier, rfl⟩ := ih hbehind
        exact ⟨hfound, .canonical asked :: .read asked :: earlier, rfl⟩

end Guarded

/-! ### Runs of a recorded loader -/

/-- A loader that reads from a recorded provider. -/
abbrev RecordedLoader := Loader (StateM (List ProviderCall))

/-- Runs a recorded loader on a journal and the questions that were asked before. -/
def RecordedLoader.exec {α : Type} (loader : RecordedLoader α) (journal : Journal)
    (calls : List ProviderCall) : (Except ScriptError α × Journal) × List ProviderCall :=
  ((loader.run).run journal).run calls

theorem RecordedLoader.exec_bind {α β : Type} (loader : RecordedLoader α)
    (next : α → RecordedLoader β) (journal : Journal) (calls : List ProviderCall) :
    RecordedLoader.exec (loader >>= next) journal calls =
      match RecordedLoader.exec loader journal calls with
      | ((.ok value, journal'), calls') => RecordedLoader.exec (next value) journal' calls'
      | ((.error error, journal'), calls') => ((.error error, journal'), calls') := by
  rcases h : RecordedLoader.exec loader journal calls with ⟨⟨error | value, journal'⟩, calls'⟩
  · unfold RecordedLoader.exec at h ⊢
    simp only [ExceptT.run_bind, StateT.run_bind, h]
    rfl
  · unfold RecordedLoader.exec at h ⊢
    simp only [ExceptT.run_bind, StateT.run_bind, h]
    rfl

/-- The recorded loader ends as the plain one does, and what it does from a journal on has the
property `post`: of the questions that it asks, its result and the journal at its end. -/
def Records {α : Type} (plain : Loader Id α) (recorded : RecordedLoader α)
    (post : Journal → List ProviderCall → Except ScriptError α → Journal → Prop) : Prop :=
  ∀ journal calls, ∃ more,
    RecordedLoader.exec recorded journal calls = (plain.exec journal, calls ++ more)
      ∧ post journal more (plain.exec journal).1 (plain.exec journal).2

namespace Records

variable {α β : Type} {plain : Loader Id α} {recorded : RecordedLoader α}
  {post post' : Journal → List ProviderCall → Except ScriptError α → Journal → Prop}

/-- A run of the plain loader settles one of the recorded one, with the questions it adds. -/
theorem of_exec
    (h : ∀ journal calls, ∃ more result journal',
      RecordedLoader.exec recorded journal calls = ((result, journal'), calls ++ more)
        ∧ plain.exec journal = (result, journal') ∧ post journal more result journal') :
    Records plain recorded post := by
  intro journal calls
  obtain ⟨more, result, journal', hrecorded, hplain, hpost⟩ := h journal calls
  refine ⟨more, ?_, ?_⟩
  · rw [hrecorded, hplain]
  · rw [hplain]
    exact hpost

theorem mono (h : Records plain recorded post)
    (himp : ∀ journal more result journal', post journal more result journal' →
      post' journal more result journal') : Records plain recorded post' := by
  intro journal calls
  obtain ⟨more, hrun, hpost⟩ := h journal calls
  exact ⟨more, hrun, himp _ _ _ _ hpost⟩

/-- **Records compose.**  The questions of the second loader come behind those of the first, and an
error ends the sequence. -/
theorem bind {next : α → Loader Id β} {recordedNext : α → RecordedLoader β}
    {postAll : Journal → List ProviderCall → Except ScriptError β → Journal → Prop}
    (h : Records plain recorded post)
    (postNext : α → Journal → List ProviderCall → Except ScriptError β → Journal → Prop)
    (hnext : ∀ value journal more journal', post journal more (.ok value) journal' →
      Records (next value) (recordedNext value) (postNext value))
    (hok : ∀ journal more value journal' more' result journal'',
      post journal more (.ok value) journal' → postNext value journal' more' result journal'' →
        postAll journal (more ++ more') result journal'')
    (herror : ∀ journal more error journal', post journal more (.error error) journal' →
      postAll journal more (.error error) journal') :
    Records (plain >>= next) (recorded >>= recordedNext) postAll := by
  refine of_exec fun journal calls => ?_
  obtain ⟨more, hrun, hpost⟩ := h journal calls
  rw [RecordedLoader.exec_bind, hrun, Loader.exec_bind]
  rcases hplain : plain.exec journal with ⟨error | value, journal'⟩ <;> rw [hplain] at hpost
  · exact ⟨more, .error error, journal', rfl, rfl, herror _ _ _ _ hpost⟩
  · obtain ⟨more', hrun', hpost'⟩ := hnext value _ _ _ hpost journal' (calls ++ more)
    refine ⟨more ++ more', (Loader.exec (next value) journal').1,
      (Loader.exec (next value) journal').2, ?_, rfl, hok _ _ _ _ _ _ _ hpost hpost'⟩
    rw [← List.append_assoc]
    exact hrun'

/-- A question, and what is done with its answer. -/
theorem ask_bind {error : SourceFault → ScriptError} {answer : Except SourceFault α}
    {next : α → Loader Id β} {recordedNext : α → RecordedLoader β}
    {post : Journal → List ProviderCall → Except ScriptError β → Journal → Prop}
    (call : ProviderCall)
    (hnext : ∀ value, answer = .ok value →
      Records (next value) (recordedNext value) fun journal more => post journal (call :: more))
    (hfault : ∀ fault, answer = .error fault →
      ∀ journal, post journal [call] (.error (error fault)) journal) :
    Records (Loader.ask (m := Id) error answer >>= next)
      (Loader.ask error (call.answered answer) >>= recordedNext) post := by
  refine of_exec fun journal calls => ?_
  cases answer with
  | error fault => exact ⟨[call], .error (error fault), journal, rfl, rfl, hfault fault rfl journal⟩
  | ok value =>
    obtain ⟨more, hrun, hpost⟩ := hnext value rfl journal (calls ++ [call])
    refine ⟨call :: more, ((next value).exec journal).1, ((next value).exec journal).2, ?_, rfl,
      hpost⟩
    rw [List.append_assoc] at hrun
    exact hrun

theorem get_bind {next : Journal → Loader Id β} {recordedNext : Journal → RecordedLoader β}
    {post : Journal → List ProviderCall → Except ScriptError β → Journal → Prop}
    (hnext : ∀ seen, Records (next seen) (recordedNext seen) fun journal more result journal' =>
      seen = journal → post journal more result journal') :
    Records (get >>= next) (get >>= recordedNext) post := by
  refine of_exec fun journal calls => ?_
  obtain ⟨more, hrun, hpost⟩ := hnext journal journal calls
  exact ⟨more, _, _, hrun, rfl, hpost rfl⟩

/-- A change of the journal, and what is done behind it. -/
theorem modify_bind {change : Journal → Journal} {next : Unit → Loader Id β}
    {recordedNext : Unit → RecordedLoader β}
    {post : Journal → List ProviderCall → Except ScriptError β → Journal → Prop}
    (hnext : Records (next ()) (recordedNext ()) fun changed more result journal' =>
      ∀ journal, changed = change journal → post journal more result journal') :
    Records (modify change >>= next) (modify change >>= recordedNext) post := by
  refine of_exec fun journal calls => ?_
  obtain ⟨more, hrun, hpost⟩ := hnext (change journal) calls
  exact ⟨more, _, _, hrun, rfl, hpost journal rfl⟩

theorem pure {value : α} (h : ∀ journal, post journal [] (.ok value) journal) :
    Records (Pure.pure value) (Pure.pure value) post :=
  of_exec fun journal calls =>
    ⟨[], .ok value, journal, by rw [List.append_nil]; rfl, rfl, h journal⟩

theorem throw_bind {γ : Type} {error : ScriptError} {next : γ → Loader Id α}
    {recordedNext : γ → RecordedLoader α} (h : ∀ journal, post journal [] (.error error) journal) :
    Records (throw error >>= next) (throw error >>= recordedNext) post :=
  of_exec fun journal calls =>
    ⟨[], .error error, journal, by rw [List.append_nil]; rfl, rfl, h journal⟩

/-- Building a text asks nothing and imports nothing. -/
theorem buildText (name text : String) :
    Records (Loader.buildText name text) (Loader.buildText name text)
      fun journal more _ journal' => more = [] ∧ journal'.imported = journal.imported := by
  refine of_exec fun journal calls => ?_
  unfold Loader.buildText
  cases parseText name text with
  | error failure =>
    exact ⟨[], .error (.malformed failure), journal,
      by rw [List.append_nil]; rfl, rfl, rfl, rfl⟩
  | ok script =>
    refine ⟨[], .ok (build script), _, ?_, rfl, rfl, rfl⟩
    rw [List.append_nil]
    rfl

end Records

/-! ### Confined loaders -/

section Confined

variable {provider : Provider Id} {root : Path}

/-- The canonical path of a path lies inside of the directory. -/
def Provider.Allows (provider : Provider Id) (root : Path) (path : Path) : Prop :=
  ∃ canonical, provider.canonical path = .ok canonical ∧ canonical.isInside root = true

/-- The journal has no further imports but such inside of the directory. -/
def Journal.GrowsInside (root : Path) (journal journal' : Journal) : Prop :=
  ∀ script ∈ journal'.imported, script ∈ journal.imported ∨ script.path.isInside root = true

theorem Journal.GrowsInside.refl (journal : Journal) : journal.GrowsInside root journal :=
  fun _ h => .inl h

theorem Journal.GrowsInside.trans {first second third : Journal}
    (h : first.GrowsInside root second) (h' : second.GrowsInside root third) :
    first.GrowsInside root third := by
  intro script hscript
  rcases h' script hscript with hscript | hinside
  · exact h script hscript
  · exact .inr hinside

/-- The loader reads only what is allowed, and imports only scripts inside of the directory. -/
def Confined {α : Type} (provider : Provider Id) (root : Path) (plain : Loader Id α)
    (recorded : RecordedLoader α) : Prop :=
  Records plain recorded fun journal more _ journal' =>
    Guarded (provider.Allows root) more ∧ journal.GrowsInside root journal'

namespace Confined

variable {α β : Type} {plain : Loader Id α} {recorded : RecordedLoader α}

theorem bind {next : α → Loader Id β} {recordedNext : α → RecordedLoader β}
    (h : Confined provider root plain recorded)
    (hnext : ∀ value, Confined provider root (next value) (recordedNext value)) :
    Confined provider root (plain >>= next) (recorded >>= recordedNext) := by
  refine Records.bind h _ (fun value _ _ _ _ => hnext value) ?_ ?_
  · rintro journal more value journal' more' result journal'' ⟨hmore, hgrows⟩ ⟨hmore', hgrows'⟩
    exact ⟨hmore.append hmore', hgrows.trans hgrows'⟩
  · intro journal more error journal' hpost
    exact hpost

theorem pure (value : α) : Confined provider root (Pure.pure value) (Pure.pure value) :=
  Records.pure fun journal => ⟨.nil, .refl journal⟩

theorem note (notes : List Note) : Confined provider root (Loader.note notes) (Loader.note notes) :=
  Records.of_exec fun journal calls =>
    ⟨[], .ok (), { journal with notes := journal.notes ++ notes },
      by rw [List.append_nil]; rfl, rfl, .nil, .refl journal⟩

theorem modify (change : Journal → Journal)
    (h : ∀ journal : Journal, journal.GrowsInside root (change journal)) :
    Confined provider root (MonadState.modifyGet fun journal => ((), change journal))
      (MonadState.modifyGet fun journal => ((), change journal)) :=
  Records.of_exec fun journal calls =>
    ⟨[], .ok (), change journal, by rw [List.append_nil]; rfl, rfl, .nil, h journal⟩

theorem buildText (name text : String) :
    Confined provider root (Loader.buildText name text) (Loader.buildText name text) := by
  refine (Records.buildText name text).mono ?_
  rintro journal more result journal' ⟨rfl, himported⟩
  exact ⟨.nil, fun script hscript => .inl (himported ▸ hscript)⟩

end Confined

/-! ### Imports -/

variable {maxDepth : Nat}

/-- The path of an import is found by two questions, of which the last one is for its canonical
path; where this path is not inside of the directory, the loader stops. -/
theorem records_locate (site : ImportSite) (request : ImportRequest) :
    Records (ImportRules.locate ⟨provider, root, maxDepth⟩ site request)
      (ImportRules.locate ⟨provider.recorded, root, maxDepth⟩ site request)
      fun journal more result journal' => journal' = journal ∧
        match result with
        | .error _ => Guarded (provider.Allows root) more
        | .ok (path, canonical) =>
          more = [.resolve site.directory request.path, .canonical path]
            ∧ provider.canonical path = .ok canonical ∧ canonical.isInside root = true := by
  unfold ImportRules.locate
  refine Records.ask_bind (.resolve site.directory request.path) (fun path _ => ?_) ?_
  · refine Records.ask_bind (.canonical path) (fun canonical hcanonical => ?_) ?_
    · by_cases hinside : canonical.isInside root = true
      -- outside of the directory, or on the stack, the loader stops
      · by_cases hcycle : site.stack.any canonical.same = true
        · simp only [hinside, hcycle, Bool.not_true, Bool.false_eq_true, if_false, if_true]
          exact Records.throw_bind fun journal => ⟨rfl, .resolve _ _ (.canonical _ .nil)⟩
        · simp only [hinside, hcycle, Bool.not_true, Bool.false_eq_true, if_false]
          exact Records.pure fun journal => ⟨rfl, rfl, hcanonical, hinside⟩
      · simp only [hinside, Bool.not_false, if_true]
        exact Records.throw_bind fun journal => ⟨rfl, .resolve _ _ (.canonical _ .nil)⟩
    · exact fun fault _ journal => ⟨rfl, .resolve _ _ (.canonical _ .nil)⟩
  · exact fun fault _ journal => ⟨rfl, .resolve _ _ .nil⟩

/-- Loading an import starts by reading it. -/
theorem records_load {descend : ImportSite → List ImportRequest → Loader Id Unit}
    {recordedDescend : ImportSite → List ImportRequest → RecordedLoader Unit}
    (hdescend : ∀ site requests,
      Confined provider root (descend site requests) (recordedDescend site requests))
    (site : ImportSite) (request : ImportRequest) (path : Path) {canonical : Path}
    (hinside : canonical.isInside root = true) :
    Records (ImportRules.load ⟨provider, root, maxDepth⟩ descend site request path canonical)
      (ImportRules.load ⟨provider.recorded, root, maxDepth⟩ recordedDescend site request path
        canonical)
      fun journal more _ journal' => ∃ behind, more = .read path :: behind
        ∧ Guarded (provider.Allows root) behind ∧ journal.GrowsInside root journal' := by
  unfold ImportRules.load
  refine Records.modify_bind (Records.ask_bind (.read path) (fun text _ => ?_) ?_)
  · -- behind the reading only the imports of the script ask anything
    have hnoted : Confined provider root _ _ :=
      Confined.note [.importing path.text site.script request.line]
    have hrest : Confined provider root _ _ :=
      hnoted.bind fun _ => (Confined.buildText path.text text).bind fun built =>
        (Confined.modify (fun journal => { journal with
            imported := journal.imported ++ [⟨canonical, request.line, built.document⟩] })
          fun journal script hscript => ?_).bind fun _ =>
          (hdescend ⟨path.text, canonical.parent?.getD ⟨"."⟩, site.stack ++ [canonical]⟩
            built.requests).bind fun _ =>
            Confined.modify (fun journal => { journal with
              finished := journal.finished ++ [canonical] }) fun journal => .refl journal
    · refine hrest.mono ?_
      rintro changed more result journal' ⟨hmore, hgrows⟩ journal rfl
      exact ⟨more, rfl, hmore, hgrows⟩
    · rcases List.mem_append.1 hscript with hscript | hscript
      · exact .inl hscript
      · rw [List.mem_singleton.1 hscript]
        exact .inr hinside
  · rintro fault - changed journal rfl
    exact ⟨[], rfl, .nil, .refl _⟩

/-- Following the imports of a script reads only what is allowed, if that is so one level deeper. -/
theorem confined_followWith
    {descend : Option (ImportSite → List ImportRequest → Loader Id Unit)}
    {recordedDescend : Option (ImportSite → List ImportRequest → RecordedLoader Unit)}
    (hdescend : (descend = none ∧ recordedDescend = none) ∨
      ∃ plain recorded, descend = some plain ∧ recordedDescend = some recorded ∧
        ∀ site requests, Confined provider root (plain site requests) (recorded site requests))
    (site : ImportSite) (requests : List ImportRequest) :
    Confined provider root
      (ImportRules.followWith ⟨provider, root, maxDepth⟩ descend site requests)
      (ImportRules.followWith ⟨provider.recorded, root, maxDepth⟩ recordedDescend site
        requests) := by
  induction requests with
  | nil => exact Confined.pure ()
  | cons request others ih =>
    unfold ImportRules.followWith
    refine Records.bind (records_locate site request)
      (fun found journal more _ journal' =>
        Guarded (provider.Allows root) (.canonical found.1 :: more) ∧
          journal.GrowsInside root journal') ?_ ?_ ?_
    · rintro ⟨path, canonical⟩ journal more journal' ⟨-, -, hcanonical, hinside⟩
      refine Records.get_bind fun seen => ?_
      dsimp only
      split
      · -- the script is loaded already: nothing is read
        refine ((Confined.note _).bind fun _ => ih).mono ?_
        rintro journal more result journal' ⟨hmore, hgrows⟩ -
        exact ⟨.canonical path hmore, hgrows⟩
      · rcases hdescend with ⟨rfl, rfl⟩ | ⟨plain, recorded, rfl, rfl, hdeeper⟩
        · exact Records.throw_bind fun journal _ => ⟨.canonical path .nil, .refl journal⟩
        · -- the reading stands behind the question that cleared it
          refine Records.bind (records_load hdeeper site request path hinside) _
            (fun _ _ _ _ _ => ih) ?_ ?_
          · rintro journal more _ journal' more' result journal''
              ⟨behind, rfl, hbehind, hgrows⟩ ⟨hmore', hgrows'⟩ -
            exact ⟨.read ⟨canonical, hcanonical, hinside⟩ (hbehind.append hmore'),
              hgrows.trans hgrows'⟩
          · rintro journal more error journal' ⟨behind, rfl, hbehind, hgrows⟩ -
            exact ⟨.read ⟨canonical, hcanonical, hinside⟩ hbehind, hgrows⟩
    · rintro journal more ⟨path, canonical⟩ _ more' result journal'' ⟨rfl, rfl, -⟩ ⟨hmore', hgrows⟩
      exact ⟨.resolve _ _ hmore', hgrows⟩
    · rintro journal more error _ ⟨rfl, hmore⟩
      exact ⟨hmore, .refl _⟩

/-- However deep the imports of a script go, only what is allowed is read. -/
theorem confined_follow (depth : Nat) (site : ImportSite) (requests : List ImportRequest) :
    Confined provider root (ImportRules.follow ⟨provider, root, maxDepth⟩ depth site requests)
      (ImportRules.follow ⟨provider.recorded, root, maxDepth⟩ depth site requests) := by
  induction depth generalizing site requests with
  | zero => exact confined_followWith (.inl ⟨rfl, rfl⟩) site requests
  | succ depth ih => exact confined_followWith (.inr ⟨_, _, rfl, rfl, ih⟩) site requests

end Confined

/-! ### Loading a script -/

/-- The directory that the imports of a script have to stay in: the canonical path of the one that
the options name, and else the directory that the script itself stands in. -/
def IsSandboxRoot (options : LoadOptions) (provider : Provider Id) (input : ScriptInput)
    (root : Path) : Prop :=
  match options.sandboxRoot, input with
  | some directory, _ => provider.canonical directory = .ok root
  | none, .path file => ∃ own, provider.canonical file = .ok own ∧ root = own.parent?.getD ⟨"."⟩
  | none, .content _ _ => provider.canonical ⟨"."⟩ = .ok root

/-- What a script may read by its imports: paths whose canonical paths lie inside of the sandbox. -/
def MayRead (options : LoadOptions) (provider : Provider Id) (input : ScriptInput)
    (path : Path) : Prop :=
  ∃ root, IsSandboxRoot options provider input root ∧ provider.Allows root path

/-- The journal has no further imports but such inside of the sandbox. -/
def Journal.GrowsInSandbox (options : LoadOptions) (provider : Provider Id) (input : ScriptInput)
    (journal journal' : Journal) : Prop :=
  ∀ script ∈ journal'.imported, script ∈ journal.imported ∨
    ∃ root, IsSandboxRoot options provider input root ∧ script.path.isInside root = true

section Loading

variable {options : LoadOptions} {provider : Provider Id} {input : ScriptInput}

/-- The questions that are asked to read the script that all begins with. -/
def ScriptInput.ownCalls : ScriptInput → List ProviderCall
  | .path file => [.read file]
  | .content _ _ => []

/-- What is confined to the sandbox root is confined to the sandbox. -/
theorem confined_of_isSandboxRoot {root : Path} (hroot : IsSandboxRoot options provider input root)
    {journal journal' : Journal} {more : List ProviderCall}
    (h : Guarded (provider.Allows root) more ∧ journal.GrowsInside root journal') :
    Guarded (MayRead options provider input) more
      ∧ journal.GrowsInSandbox options provider input journal' := by
  refine ⟨h.1.mono fun path hpath => ⟨root, hroot, hpath⟩, fun script hscript => ?_⟩
  rcases h.2 script hscript with hold | hinside
  · exact .inl hold
  · exact .inr ⟨root, hroot, hinside⟩

theorem records_followImports (requests : List ImportRequest) :
    Records (followImports options provider input.name input.origin? requests)
      (followImports options provider.recorded input.name input.origin? requests)
      fun journal more _ journal' => Guarded (MayRead options provider input) more
        ∧ journal.GrowsInSandbox options provider input journal' := by
  unfold followImports
  refine Records.ask_bind (.canonical (input.origin?.getD ⟨"."⟩)) (fun own hown => ?_) ?_
  -- the sandbox is the directory asked for, or that of the script
  · cases hdirectory : options.sandboxRoot with
    | some directory =>
      refine Records.ask_bind (.canonical directory) (fun root hroot => ?_) ?_
      · have hsandbox : IsSandboxRoot options provider input root := by
          unfold IsSandboxRoot
          rw [hdirectory]
          exact hroot
        refine (confined_follow _ _ requests).mono fun journal more _ journal' hpost => ?_
        obtain ⟨hmore, hgrows⟩ := confined_of_isSandboxRoot hsandbox hpost
        exact ⟨.canonical _ (.canonical _ hmore), hgrows⟩
      · exact fun fault _ journal =>
          ⟨.canonical _ (.canonical _ .nil), fun script hscript => .inl hscript⟩
    | none =>
      have hsandbox : IsSandboxRoot options provider input
          (if input.origin?.isSome then own.parent?.getD ⟨"."⟩ else own) := by
        unfold IsSandboxRoot
        rw [hdirectory]
        cases input with
        | path file => exact ⟨own, hown, rfl⟩
        | content name text => exact hown
      refine (confined_follow _ _ requests).mono fun journal more _ journal' hpost => ?_
      obtain ⟨hmore, hgrows⟩ := confined_of_isSandboxRoot hsandbox hpost
      exact ⟨.canonical _ hmore, hgrows⟩
  · exact fun fault _ journal => ⟨.canonical _ .nil, fun script hscript => .inl hscript⟩

/-- What is done with the text of a script asks only to follow imports. -/
theorem records_loadText (text : String) :
    Records
      (do
        let built ← Loader.buildText input.name text
        if options.resolveImports && !built.requests.isEmpty then
          followImports options provider input.name input.origin? built.requests
        return (⟨input.name, built.document, (← get).imported⟩ : LoadedScript))
      (do
        let built ← Loader.buildText input.name text
        if options.resolveImports && !built.requests.isEmpty then
          followImports options provider.recorded input.name input.origin? built.requests
        return (⟨input.name, built.document, (← get).imported⟩ : LoadedScript))
      fun journal more result journal' => Guarded (MayRead options provider input) more
        ∧ journal.GrowsInSandbox options provider input journal'
        ∧ ∀ script, result = .ok script → script.imports = journal'.imported := by
  refine Records.bind (Records.buildText input.name text)
    (fun _ journal more result journal' => Guarded (MayRead options provider input) more
      ∧ journal.GrowsInSandbox options provider input journal'
      ∧ ∀ script, result = .ok script → script.imports = journal'.imported)
    (fun built _ _ _ _ => ?_) ?_ ?_
  · -- at the end the imports of the journal become those of the script
    have hend : Records
        (get >>= fun journal : Journal =>
          pure (⟨input.name, built.document, journal.imported⟩ : LoadedScript))
        (get >>= fun journal : Journal =>
          pure (⟨input.name, built.document, journal.imported⟩ : LoadedScript))
        fun journal more result journal' => more = [] ∧ journal' = journal ∧
          ∀ script, result = .ok script → script.imports = journal'.imported := by
      refine Records.get_bind fun seen => Records.pure fun journal hseen => ⟨rfl, rfl, ?_⟩
      intro script hscript
      rw [← Except.ok.inj hscript, hseen]
    split
    · refine Records.bind (records_followImports built.requests) _ (fun _ _ _ _ _ => hend) ?_ ?_
      · rintro journal more _ journal' _ result _ ⟨hmore, hgrows⟩ ⟨rfl, rfl, himports⟩
        rw [List.append_nil]
        exact ⟨hmore, hgrows, himports⟩
      · rintro journal more error journal' ⟨hmore, hgrows⟩
        exact ⟨hmore, hgrows, fun script hscript => by cases hscript⟩
    · refine hend.mono ?_
      rintro journal _ result _ ⟨rfl, rfl, himports⟩
      exact ⟨.nil, fun script hscript => .inl hscript, himports⟩
  · rintro journal _ built journal' more' result journal'' ⟨rfl, himported⟩
      ⟨hmore, hgrows, himports⟩
    refine ⟨hmore, ?_, himports⟩
    unfold Journal.GrowsInSandbox at hgrows ⊢
    rw [← himported]
    exact hgrows
  · rintro journal _ error journal' ⟨rfl, himported⟩
    refine ⟨.nil, fun script hscript => .inl (himported ▸ hscript), fun script hscript => ?_⟩
    cases hscript

/-- Behind the reading of the script itself only its imports ask anything. -/
theorem records_loadScript :
    Records (loadScript input options provider) (loadScript input options provider.recorded)
      fun journal more result journal' => ∃ followed, more = input.ownCalls ++ followed
        ∧ Guarded (MayRead options provider input) followed
        ∧ journal.GrowsInSandbox options provider input journal'
        ∧ ∀ script, result = .ok script → script.imports = journal'.imported := by
  unfold loadScript
  cases input with
  | path file =>
    simp only [ScriptInput.read, bind_assoc, pure_bind]
    refine Records.ask_bind (.read file) (fun text _ => ?_) ?_
    · exact (records_loadText text).mono fun journal more result journal' hpost =>
        ⟨more, rfl, hpost⟩
    · intro fault _ journal
      refine ⟨[], rfl, .nil, fun script hscript => .inl hscript, fun script hscript => ?_⟩
      cases hscript
  | content name text =>
    simp only [ScriptInput.read, pure_bind]
    exact (records_loadText text).mono fun journal more result journal' hpost => ⟨more, rfl, hpost⟩

/-- **Imports stay in the sandbox.**  Let any provider be watched while a script is loaded.  The run
comes to the same end as without the watching; it asks first for the script itself, if that has a
path, and then only to follow imports.  Each path that is read among these was asked for its
canonical path immediately before, and the answer lies inside of the sandbox root.  And each script
that a loaded script imports lies inside of the sandbox root. -/
theorem imports_confined (provider : Provider Id) (input : ScriptInput) (options : LoadOptions) :
    ∃ followed,
      (load input options provider.recorded).run [] =
          (load input options provider, input.ownCalls ++ followed)
        ∧ (∀ before path after, followed = before ++ .read path :: after →
          (∃ earlier, before = earlier ++ [.canonical path]) ∧
            ∃ root canonical, IsSandboxRoot options provider input root ∧
              provider.canonical path = .ok canonical ∧ canonical.isInside root = true)
        ∧ ∀ script, (load input options provider).1 = .ok script →
          ∀ imported ∈ script.imports,
            ∃ root, IsSandboxRoot options provider input root ∧
              imported.path.isInside root = true := by
  obtain ⟨more, hrun, followed, rfl, hguarded, hgrows, himports⟩ :=
    (records_loadScript : Records (loadScript input options provider) _ _) {} []
  refine ⟨followed, hrun, ?_, ?_⟩
  · intro before path after hsplit
    obtain ⟨⟨root, hroot, canonical, hcanonical, hinside⟩, hbefore⟩ := hguarded.before_read hsplit
    exact ⟨hbefore, root, canonical, hroot, hcanonical, hinside⟩
  · intro script hscript imported himported
    rw [himports script hscript] at himported
    -- at the start nothing is imported
    rcases hgrows imported himported with hnone | hinside
    · cases hnone
    · exact hinside

end Loading
end LaneScript
