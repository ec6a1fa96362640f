import LaneScript.Import.Load
import LaneScript.Proofs.DocumentEntries
import Mathlib.Data.List.Nodup

/-!
# What is left of a document when it is flattened

Flattening puts every entry of a document under its label, the names of its address with a blank
between them.  The label does not tell where a name ends, nor whether it is that of a platform or
of a lane, and an ordered map has one value for a key.  So an entry is lost where a later one has
the same label:

* `Document.keys_flatten` and `Document.get?_flatten` — the labels stand in the order in which they
  come first, and each of them shows the last entry that has it;
* `Document.showsAll_iff` — nothing is lost exactly if the labels of all entries differ and no
  entry but the outermost one has the empty label;
* `Address.label_eq_iff` — names without blanks have different labels unless they are the same
  names.

The last condition is not met by every script: a lane outside of all platforms may have the name of
a platform that holds actions of its own (`not_every_document_shown`).
-/

namespace LaneScript

open List

/-! ### Maps made of a list -/

namespace OrderedMap

variable {α β : Type} [DecidableEq α]

/-- One entry more is inserted behind the others. -/
theorem ofList_snoc (entries : List (α × β)) (entry : α × β) :
    ofList (entries ++ [entry]) = (ofList entries).insert entry.1 entry.2 := by
  unfold ofList
  rw [foldl_append]
  rfl

/-- The keys stand in the order in which they come first. -/
theorem keys_ofList (entries : List (α × β)) :
    (ofList entries).keys = (entries.map Prod.fst).eraseDups := by
  induction entries using reverseRecOn with
  | nil => rfl
  | append_singleton entries entry ih =>
    rw [ofList_snoc, insert, keys_update, ih, map_append, map_singleton, eraseDups_snoc]
    simp only [mem_eraseDups]

/-- The last entry of a key holds. -/
theorem get?_ofList (entries : List (α × β)) (key : α) :
    (ofList entries).get? key = (entries.filter (·.1 = key)).getLast?.map Prod.snd := by
  induction entries using reverseRecOn with
  | nil => rfl
  | append_singleton entries entry ih =>
    rw [ofList_snoc, insert, get?_update, ih, filter_append]
    by_cases hkey : key = entry.1
    · subst hkey
      simp
    · have hne : ¬ entry.1 = key := fun h => hkey h.symm
      simp [hkey, hne]

/-- The value of a key is that of the last item with the key. -/
theorem get?_ofList_filterMap {γ : Type} {pair? : γ → Option (α × β)} {items : List γ} {key : α}
    {value : β} :
    (ofList (items.filterMap pair?)).get? key = some value ↔
      ∃ before item after, items = before ++ item :: after ∧ pair? item = some (key, value) ∧
        ∀ later ∈ after, (pair? later).map Prod.fst ≠ some key := by
  have hkey : ∀ item, (pair? item).filter (·.1 = key) = none ↔
      (pair? item).map Prod.fst ≠ some key := by
    intro item
    cases pair? item <;> simp
  -- the last item is the first of the reversed list
  rw [get?_ofList, filter_filterMap, getLast?_filterMap, Option.map_eq_some_iff]
  simp only [findSome?_eq_some_iff, reverse_eq_append_iff, hkey]
  constructor
  · rintro ⟨⟨k, v⟩, ⟨after, item, before, rfl, hfound, hafter⟩, rfl⟩
    obtain ⟨hitem, hk⟩ := Option.filter_eq_some_iff.1 hfound
    have hk : k = key := of_decide_eq_true hk
    subst hk
    exact ⟨before.reverse, item, after.reverse, by simp, hitem, by simpa using hafter⟩
  · rintro ⟨before, item, after, rfl, hitem, hafter⟩
    refine ⟨(key, value), ⟨after.reverse, item, before.reverse, by simp, ?_, by simpa using hafter⟩,
      rfl⟩
    rw [hitem]
    simp

theorem updateEntries_of_notMem {key : α} (change : Option β → β) {entries : List (α × β)}
    (h : key ∉ entries.map Prod.fst) :
    updateEntries key change entries = entries ++ [(key, change none)] := by
  induction entries with
  | nil => rfl
  | cons entry others ih =>
    rw [map_cons, mem_cons, not_or] at h
    rw [updateEntries, if_neg (Ne.symm h.1), ih h.2, cons_append]

/-- Where no key comes twice the map has the entries of the list. -/
theorem entries_ofList {entries : List (α × β)} (h : (entries.map Prod.fst).Nodup) :
    (ofList entries).entries = entries := by
  induction entries using reverseRecOn with
  | nil => rfl
  | append_singleton entries entry ih =>
    rw [map_append, map_singleton, nodup_append] at h
    obtain ⟨hnodup, -, hdisjoint⟩ := h
    have hnew : entry.1 ∉ entries.map Prod.fst := fun hmem =>
      hdisjoint entry.1 hmem entry.1 (mem_singleton.2 rfl) rfl
    rw [ofList_snoc]
    change updateEntries entry.1 _ (ofList entries).entries = _
    rw [ih hnodup, updateEntries_of_notMem _ hnew]

theorem filter_updateEntries (p : α → Bool) (key : α) (change : Option β → β)
    (entries : List (α × β)) :
    (updateEntries key change entries).filter (fun entry => p entry.1) =
      if p key then updateEntries key change (entries.filter fun entry => p entry.1)
      else entries.filter fun entry => p entry.1 := by
  induction entries with
  | nil => cases hp : p key <;> simp [updateEntries, hp]
  | cons entry others ih =>
    obtain ⟨k, v⟩ := entry
    by_cases hkey : k = key
    · subst hkey
      cases hp : p k <;> simp [updateEntries, hp]
    · cases hp : p key <;> cases hk : p k <;> simp [updateEntries, hkey, hk, hp, ih]

/-- To leave out some keys before or after is the same. -/
theorem entries_ofList_filter (p : α → Bool) (entries : List (α × β)) :
    (ofList (entries.filter fun entry => p entry.1)).entries =
      (ofList entries).entries.filter fun entry => p entry.1 := by
  induction entries using reverseRecOn with
  | nil => rfl
  | append_singleton entries entry ih =>
    rw [ofList_snoc, filter_append]
    change _ = (updateEntries entry.1 _ _).filter _
    rw [filter_updateEntries]
    -- an entry that is left out changes no other one
    cases hp : p entry.1 with
    | false => simpa [hp] using ih
    | true =>
      have hentry : [entry].filter (fun entry => p entry.1) = [entry] := by simp [hp]
      rw [hentry, ofList_snoc, if_pos rfl, ← ih]
      rfl

end OrderedMap

/-! ### Labels -/

namespace Address

/-- The address outside of everything. -/
def outermost : Address := ⟨none, none⟩

/-- The names of the address that have a text. -/
def names (address : Address) : List String :=
  (address.platform.toList ++ (address.lane.map LaneKey.text).toList).filter (!·.isEmpty)

/-- No name has a blank in it. -/
def IsPlain (address : Address) : Prop := ∀ name ∈ address.names, ' ' ∉ name.toList

instance (address : Address) : Decidable address.IsPlain :=
  inferInstanceAs (Decidable (∀ name ∈ address.names, ' ' ∉ name.toList))

end Address

/-- Texts that are joined to nothing are none. -/
theorem eq_nil_of_intercalate_blank {names : List (List Char)} (hempty : [] ∉ names)
    (h : [' '].intercalate names = []) : names = [] := by
  match names, hempty, h with
  | [], _, _ => rfl
  | [name], hempty, h =>
    have hname : name = [] := by simpa using h
    exact absurd (mem_singleton.2 hname.symm) hempty
  | name :: other :: names, _, h => simp [intercalate_cons_cons] at h

/-- The texts between the blanks of a joined text are those that were joined. -/
theorem eq_of_intercalate_blank {names others : List (List Char)}
    (hnames : ∀ name ∈ names, ' ' ∉ name) (hothers : ∀ name ∈ others, ' ' ∉ name)
    (hempty : [] ∉ names) (hempty' : [] ∉ others)
    (h : [' '].intercalate names = [' '].intercalate others) : names = others := by
  by_cases hne : names = []
  · subst hne
    exact (eq_nil_of_intercalate_blank hempty' (by rw [← h]; rfl)).symm
  · have hne' : others ≠ [] := by
      rintro rfl
      exact hne (eq_nil_of_intercalate_blank hempty (by rw [h]; rfl))
    rw [← splitOn_intercalate ' ' hnames hne, h, splitOn_intercalate ' ' hothers hne']

namespace Address

theorem toList_label (address : Address) :
    address.label.toList = [' '].intercalate (address.names.map String.toList) :=
  String.toList_intercalate

theorem nil_notMem_names (address : Address) : [] ∉ address.names.map String.toList := by
  intro hmem
  obtain ⟨name, hname, hnil⟩ := mem_map.1 hmem
  have hempty : name = "" := String.toList_inj.1 hnil
  have hnonempty := (mem_filter.1 hname).2
  rw [hempty] at hnonempty
  cases hnonempty

theorem IsPlain.blank_notMem {address : Address} (h : address.IsPlain) :
    ∀ name ∈ address.names.map String.toList, ' ' ∉ name := by
  intro name hname
  obtain ⟨text, htext, rfl⟩ := mem_map.1 hname
  exact h text htext

/-- Without blanks in them the names can be told from the label. -/
theorem label_eq_iff {address other : Address} (h : address.IsPlain) (h' : other.IsPlain) :
    address.label = other.label ↔ address.names = other.names := by
  constructor
  · intro hlabel
    rw [← String.toList_inj, toList_label, toList_label] at hlabel
    have hnames := eq_of_intercalate_blank h.blank_notMem h'.blank_notMem
      address.nil_notMem_names other.nil_notMem_names hlabel
    exact (List.map_inj_right fun _ _ => String.toList_inj.1).1 hnames
  · intro hnames
    rw [← String.toList_inj, toList_label, toList_label, hnames]

/-- An address has the empty label if it has no names, and only then. -/
theorem label_eq_empty_iff (address : Address) : address.label = "" ↔ address.names = [] := by
  constructor
  · intro hlabel
    rw [← String.toList_inj, toList_label] at hlabel
    exact map_eq_nil_iff.1 (eq_nil_of_intercalate_blank address.nil_notMem_names hlabel)
  · intro hnames
    rw [← String.toList_inj, toList_label, hnames]
    rfl

end Address

/-! ### Flattened documents -/

namespace Document

/-- The addresses of all entries, in order. -/
def addresses (document : Document) : List Address := document.entries.map Prod.fst

/-- The labels of all entries, in order. -/
def labels (document : Document) : List String := document.addresses.map Address.label

/-- An entry under its label. -/
def labelled (entry : Address × LaneEntry) : String × LaneEntry := (entry.1.label, entry.2)

/-- The flattened document shows every entry under its label, in order; without the top level it
leaves out the outermost entry and no other. -/
def ShowsAll (document : Document) : Prop :=
  (document.flatten false).entries = document.entries.map labelled ∧
    (document.flatten true).entries =
      (document.entries.filter (·.1 ≠ .outermost)).map labelled

instance (document : Document) : Decidable document.ShowsAll :=
  inferInstanceAs (Decidable (_ ∧ _))

theorem map_fst_labelled (document : Document) :
    (document.entries.map labelled).map Prod.fst = document.labels := by
  rw [labels, addresses, map_map, map_map]
  rfl

/-- No address has two entries. -/
theorem nodup_addresses (document : Document) : document.addresses.Nodup := by
  have haddresses : document.addresses = document.platforms.entries.flatMap fun platform =>
      platform.2.keys.map (Address.mk platform.1) := by
    unfold addresses entries OrderedMap.keys
    simp only [map_flatMap, map_map]
    rfl
  rw [haddresses, nodup_flatMap]
  constructor
  · intro platform _
    exact platform.2.nodup.map fun _ _ h => (Address.mk.inj h).2
  · -- the lanes of two platforms differ in the platform
    refine (pairwise_map.1 document.platforms.nodup).imp fun hne address haddress hother => ?_
    obtain ⟨lane, -, rfl⟩ := mem_map.1 haddress
    obtain ⟨lane', -, heq⟩ := mem_map.1 hother
    exact hne (Address.mk.inj heq).1.symm

theorem flatten_false (document : Document) :
    document.flatten false = .ofList (document.entries.map labelled) := by
  change OrderedMap.ofList ((document.entries.map labelled).filter fun _ => true) = _
  rw [filter_true]

/-- Without the top level the empty label is left out. -/
theorem entries_flatten_true (document : Document) :
    (document.flatten true).entries = (document.flatten false).entries.filter (·.1 ≠ "") := by
  rw [flatten_false]
  refine Eq.trans ?_ (OrderedMap.entries_ofList_filter (fun label => decide (label ≠ "")) _)
  unfold flatten
  congr 3
  funext entry
  show (!entry.1.isEmpty) = decide (entry.1 ≠ "")
  rw [decide_not, Bool.not_inj_iff, Bool.eq_iff_iff, String.isEmpty_iff, decide_eq_true_iff]

/-- The labels stand in the order in which they come first. -/
theorem keys_flatten (document : Document) :
    (document.flatten false).keys = document.labels.eraseDups := by
  rw [flatten_false, OrderedMap.keys_ofList, map_fst_labelled]

/-- A label shows the last entry that has it. -/
theorem get?_flatten (document : Document) (label : String) :
    (document.flatten false).get? label =
      (document.entries.filter (·.1.label = label)).getLast?.map Prod.snd := by
  rw [flatten_false, OrderedMap.get?_ofList, filter_map, getLast?_map, Option.map_map]
  rfl

/-- Nothing is lost exactly if no two labels are the same and the empty one is that of the
outermost entry. -/
theorem showsAll_iff (document : Document) :
    document.ShowsAll ↔ document.labels.Nodup ∧
      ∀ address ∈ document.addresses, address.names = [] → address = .outermost := by
  constructor
  · rintro ⟨hall, htop⟩
    refine ⟨?_, fun address haddress hnames => ?_⟩
    · rw [← map_fst_labelled, ← hall]
      exact (document.flatten false).nodup
    · -- an entry with the empty label is left out, so it is the one that may be
      obtain ⟨entry, hentry, rfl⟩ := mem_map.1 haddress
      by_contra hne
      have hshown : labelled entry ∈ (document.flatten true).entries := by
        rw [htop]
        exact mem_map_of_mem (mem_filter.2 ⟨hentry, decide_eq_true hne⟩)
      rw [entries_flatten_true] at hshown
      exact of_decide_eq_true (mem_filter.1 hshown).2 (entry.1.label_eq_empty_iff.2 hnames)
  · rintro ⟨hnodup, hnames⟩
    have hall : (document.flatten false).entries = document.entries.map labelled := by
      rw [flatten_false]
      exact OrderedMap.entries_ofList (map_fst_labelled document ▸ hnodup)
    refine ⟨hall, ?_⟩
    rw [entries_flatten_true, hall, filter_map]
    congr 1
    refine filter_congr fun entry hentry => decide_eq_decide.2 (not_congr ?_)
    show entry.1.label = "" ↔ entry.1 = .outermost
    rw [Address.label_eq_empty_iff]
    refine ⟨hnames entry.1 (mem_map_of_mem hentry), fun h => ?_⟩
    rw [h]
    rfl

/-- **Flattening shows the last entry of each label.**  The labels stand in the order in which they
come first, the empty one can be left out, and no entry is lost exactly if the labels of all entries
differ and only the outermost one is empty.  Where no name has a blank in it, labels differ as soon
as the names do. -/
theorem flatten_shows_last (document : Document) :
    (document.flatten false).keys = document.labels.eraseDups ∧
      (∀ label, (document.flatten false).get? label =
        (document.entries.filter (·.1.label = label)).getLast?.map Prod.snd) ∧
      (document.flatten true).entries = (document.flatten false).entries.filter (·.1 ≠ "") ∧
      (document.ShowsAll ↔ document.labels.Nodup ∧
        ∀ address ∈ document.addresses, address.names = [] → address = .outermost) ∧
      ((∀ address ∈ document.addresses, address.IsPlain) →
        (document.ShowsAll ↔ (document.addresses.map Address.names).Nodup ∧
          ∀ address ∈ document.addresses, address.names = [] → address = .outermost)) := by
  refine ⟨document.keys_flatten, document.get?_flatten, document.entries_flatten_true,
    document.showsAll_iff, fun hplain => ?_⟩
  have hlabels : document.labels.Nodup ↔ (document.addresses.map Address.names).Nodup := by
    rw [labels, nodup_map_iff_inj_on document.nodup_addresses,
      nodup_map_iff_inj_on document.nodup_addresses]
    refine forall₂_congr fun address haddress => forall₂_congr fun other hother => ?_
    rw [Address.label_eq_iff (hplain address haddress) (hplain other hother)]
  rw [showsAll_iff, hlabels]

end Document

/-- A script with the lane `beta` of a platform, a hook and an action outside of them. -/
def platformScript : String :=
  "before_all do\n  setup\nend\nplatform :ios do\n  lane :beta do\n    build\n  end\nend\nclean\n"

theorem flatten_shows_last_platformScript :
    ∃ document, parseDocument "Lanes" platformScript = .ok document ∧
      (∀ address ∈ document.addresses, address.IsPlain) ∧
      document.labels = ["_before_all_block_", "", "ios beta"] ∧ document.ShowsAll := by
  have hread : (parseDocument "Lanes" platformScript).toOption.any (fun document =>
      decide ((∀ address ∈ document.addresses, address.IsPlain) ∧
        document.labels = ["_before_all_block_", "", "ios beta"] ∧
        (document.addresses.map Address.names).Nodup ∧
        ∀ address ∈ document.addresses, address.names = [] → address = .outermost)) = true := by
    decide +kernel
  cases hparse : parseDocument "Lanes" platformScript with
  | error error =>
    rw [hparse] at hread
    cases hread
  | ok document =>
    rw [hparse] at hread
    obtain ⟨hplain, hlabels, hnames⟩ := of_decide_eq_true hread
    exact ⟨document, rfl, hplain, hlabels,
      ((Document.flatten_shows_last document).2.2.2.2 hplain).2 hnames⟩

/-- A lane and a platform of the same name, each with an action. -/
def sharedLabelScript : String :=
  "lane :ios do\n  test\nend\nplatform :ios do\n  build\nend\n"

/-- The action of the lane is lost behind that of the platform. -/
theorem not_every_document_shown :
    ¬ ∀ name text document, parseDocument name text = .ok document → document.ShowsAll := by
  intro hall
  have hread : (parseDocument "Lanes" sharedLabelScript).toOption.any (fun document =>
      decide (¬ document.ShowsAll)) = true := by decide +kernel
  cases hparse : parseDocument "Lanes" sharedLabelScript with
  | error error =>
    rw [hparse] at hread
    cases hread
  | ok document =>
    rw [hparse] at hread
    exact of_decide_eq_true hread (hall _ _ document hparse)

end LaneScript
