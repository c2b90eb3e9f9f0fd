import Stablemate.Lib.Lists
import Stablemate.Model.Causes
import Stablemate.Proof.WorkList

/-!
# What a write of the list keeps

* `Leads`: following `same_as` from a finding one comes to one that is not merged. Each finding may
  be re-opened, keep its link, or be merged into one that is not merged itself (`Leads.moves`).
* `Sound`: the ids are distinct, every finding that was filed is there, and each leads.
* `Sound.map`, `Sound.pruned`, `Sound.added`, `Sound.replaced`: one lemma for each kind of write.
* `holds_replace`, `holds_file`: what an operation does, for its callers.
-/

namespace Stablemate.Coder

open Cut (Prog Holds holds_pure holds_bind holds_throw holds_foldlM)
open WorkList (ofKind prune settle)

/-! ## Links -/

/-- Following `same_as`, a finding that is not merged is reached. -/
inductive Leads (rows : List Item) : Text → Prop
  | here {it : Item} (h : it ∈ rows) (hkind : it.kind = FINDING) (hopen : it.status ≠ MERGED) : Leads rows it.id
  | along {it : Item} {same : Text} (h : it ∈ rows) (hkind : it.kind = FINDING) (hmerged : it.status = MERGED)
      (hsame : it.content.same_as = some same) (hleads : Leads rows same) : Leads rows it.id

/-- The item is merged into a finding that is not merged. -/
def IntoOpen (rows : List Item) (it : Item) : Prop :=
  it.status = MERGED ∧ ∃ root ∈ rows, root.kind = FINDING ∧ root.status ≠ MERGED ∧ it.content.same_as = some root.id

/-- What a finding may become. -/
structure Moves (rows : List Item) (it it' : Item) : Prop where
  id : it'.id = it.id
  kind : it'.kind = FINDING
  link : it'.status ≠ MERGED ∨
    (it.status = MERGED ∧ it'.status = MERGED ∧ it'.content.same_as = it.content.same_as) ∨ IntoOpen rows it'

section Links

variable {rows rows' : List Item} {it it' : Item} {id : Text}

theorem IntoOpen.leads (h : IntoOpen rows it) (hit : it ∈ rows) (hkind : it.kind = FINDING) : Leads rows it.id := by
  obtain ⟨hmerged, root, hroot, hrootkind, hopen, hsame⟩ := h
  exact .along hit hkind hmerged hsame (.here hroot hrootkind hopen)

theorem Moves.same (hkind : it.kind = FINDING) : Moves rows it it := by
  refine ⟨rfl, hkind, ?_⟩
  by_cases hmerged : it.status = MERGED
  · exact .inr (.inl ⟨hmerged, hmerged, rfl⟩)
  · exact .inl hmerged

/-- A finding leads where it did, or to the one that it or one behind it is merged into. -/
theorem Leads.moves (h : Leads rows id)
    (hmoves : ∀ it ∈ rows, it.kind = FINDING → ∃ it' ∈ rows', Moves rows' it it') : Leads rows' id := by
  induction h with
  | here hit hkind hopen =>
    obtain ⟨it', hit', hmove⟩ := hmoves _ hit hkind
    rw [← hmove.id]
    rcases hmove.link with hopen' | ⟨hmerged, -, -⟩ | hinto
    · exact .here hit' hmove.kind hopen'
    · exact absurd hmerged hopen
    · exact hinto.leads hit' hmove.kind
  | along hit hkind hmerged hsame hleads ih =>
    obtain ⟨it', hit', hmove⟩ := hmoves _ hit hkind
    rw [← hmove.id]
    rcases hmove.link with hopen' | ⟨-, hmerged', hlink⟩ | hinto
    · exact .here hit' hmove.kind hopen'
    · exact .along hit' hmove.kind hmerged' (hlink.trans hsame) ih
    · exact hinto.leads hit' hmove.kind

end Links

/-! ## The invariant -/

/-- Of the dots and dashes of an id, the last is a dot. -/
def dotted (id : Text) : Prop := (id.reverse.find? fun c => c = '.' || c = '-') = some '.'

/-- **What holds of the list after every whole write.** -/
structure Sound (s : State) : Prop where
  ids : (s.items.map (·.id)).Nodup
  filed : ∀ id ∈ s.filed, ∃ it ∈ s.items, it.id = id ∧ it.kind = FINDING
  leads : ∀ it ∈ s.items, it.kind = FINDING → Leads s.items it.id
  dotted : ∀ it ∈ s.items, it.kind = FINDING → dotted it.id
  named : ∀ it ∈ s.items, it.kind = FOLLOW_UP → it.id ≠ NEW

section Invariant

variable {s t : State} {it item old : Item} {batch : List Item}

theorem Sound.eq_of_id (h : Sound s) {a b : Item} (ha : a ∈ s.items) (hb : b ∈ s.items) (hid : a.id = b.id) : a = b :=
  eq_of_key h.ids ha hb hid

/-- What is merged says what it is merged into. -/
theorem Sound.same_as (h : Sound s) (hit : it ∈ s.items) (hkind : it.kind = FINDING) (hmerged : it.status = MERGED) :
    it.content.same_as ≠ none := by
  intro hnone
  have hleads := h.leads it hit hkind
  generalize hid : it.id = id at hleads
  cases hleads with
  | here hit' _ hopen =>
    obtain rfl := h.eq_of_id hit hit' hid
    exact hopen hmerged
  | along hit' _ _ hsame _ =>
    obtain rfl := h.eq_of_id hit hit' hid
    rw [hnone] at hsame
    cases hsame

/-- The links of a list whose findings have moved. -/
theorem leads_of_moves (h : Sound s) (hmoves : ∀ it ∈ s.items, it.kind = FINDING → ∃ it' ∈ t.items, Moves t.items it it')
    (hnew : ∀ it ∈ t.items, it.kind = FINDING → (∃ old ∈ s.items, old.kind = FINDING ∧ old.id = it.id) ∨
      it.status ≠ MERGED ∨ IntoOpen t.items it) : ∀ it ∈ t.items, it.kind = FINDING → Leads t.items it.id := by
  intro it hit hkind
  rcases hnew it hit hkind with ⟨old, hold, holdkind, hid⟩ | hopen | hinto
  · rw [← hid]
    exact (h.leads old hold holdkind).moves hmoves
  · exact .here hit hkind hopen
  · exact hinto.leads hit hkind

/-- Every row keeps its id, its kind and what it holds; a finding is not merged by it. -/
theorem Sound.map (h : Sound s) {f : Item → Item} (hf : WorkList.Keeps f)
    (hstatus : ∀ it ∈ s.items, it.kind = FINDING → (f it).status ≠ MERGED ∨ (f it).status = it.status) :
    Sound { s with items := s.items.map f } := by
  have hrow : ∀ it ∈ s.items.map f, ∃ old ∈ s.items, f old = it := fun it hit => List.mem_map.1 hit
  refine ⟨?_, fun id hid => ?_, ?_, fun it hit hkind => ?_, fun it hit hkind => ?_⟩
  · rw [hf.map_id]
    exact h.ids
  · obtain ⟨it, hit, rfl, hkind⟩ := h.filed id hid
    exact ⟨f it, List.mem_map_of_mem hit, hf.id it, (hf.kind it).trans hkind⟩
  · apply leads_of_moves h
    · intro it hit hkind
      refine ⟨f it, List.mem_map_of_mem hit, hf.id it, (hf.kind it).trans hkind, ?_⟩
      rcases hstatus it hit hkind with hopen | hsame
      · exact .inl hopen
      · by_cases hmerged : it.status = MERGED
        · exact .inr (.inl ⟨hmerged, hsame.trans hmerged, by rw [hf.content]⟩)
        · exact .inl (hsame ▸ hmerged)
    · intro it hit hkind
      obtain ⟨old, hold, rfl⟩ := hrow it hit
      exact .inl ⟨old, hold, (hf.kind old).symm.trans hkind, (hf.id old).symm⟩
  · obtain ⟨old, hold, rfl⟩ := hrow it hit
    rw [hf.id]
    exact h.dotted old hold ((hf.kind old).symm.trans hkind)
  · obtain ⟨old, hold, rfl⟩ := hrow it hit
    rw [hf.id]
    exact h.named old hold ((hf.kind old).symm.trans hkind)

theorem mem_prune {id kind : Text} {rows : List Item} :
    it ∈ prune id (some [kind]) rows ↔ it ∈ rows ∧ (it.id = id → it.kind ≠ kind) := by
  simp [prune, WorkList.WorkItem.isKind, imp_iff_not_or]

/-- Dropping an item that is no finding. -/
theorem Sound.pruned (h : Sound s) (id : Text) {kind : Text} (hkind : kind ≠ FINDING) :
    Sound { s with items := prune id (some [kind]) s.items } := by
  have hkept : ∀ it ∈ s.items, it.kind = FINDING → it ∈ prune id (some [kind]) s.items :=
    fun it hit hfinding => mem_prune.2 ⟨hit, fun _ heq => hkind (heq.symm.trans hfinding)⟩
  have hsub : ∀ it ∈ prune id (some [kind]) s.items, it ∈ s.items := fun it hit => (mem_prune.1 hit).1
  refine ⟨h.ids.sublist (List.filter_sublist.map _), fun id hid => ?_, ?_, fun it hit => h.dotted it (hsub it hit),
    fun it hit => h.named it (hsub it hit)⟩
  · obtain ⟨it, hit, hid, hfinding⟩ := h.filed id hid
    exact ⟨it, hkept it hit hfinding, hid, hfinding⟩
  · apply leads_of_moves h
    · exact fun it hit hfinding => ⟨it, hkept it hit hfinding, .same hfinding⟩
    · exact fun it hit hfinding => .inl ⟨it, hsub it hit, hfinding, rfl⟩

theorem mem_findingIds {id : Text} : id ∈ findingIds batch ↔ ∃ it ∈ batch, it.id = id ∧ it.kind = FINDING := by
  unfold findingIds
  simp only [List.mem_map, List.mem_filter, decide_eq_true_eq]
  constructor
  · rintro ⟨it, ⟨hit, hkind⟩, hid⟩
    exact ⟨it, hit, hid, hkind⟩
  · rintro ⟨it, hit, hid, hkind⟩
    exact ⟨it, ⟨hit, hkind⟩, hid⟩

theorem repeated_none {seen : List Text} (h : repeated seen batch = none) :
    (batch.map (·.id)).Nodup ∧ ∀ it ∈ batch, it.id ∉ seen := by
  induction batch generalizing seen with
  | nil => exact ⟨List.nodup_nil, fun _ hit => absurd hit List.not_mem_nil⟩
  | cons a batch ih =>
    unfold repeated at h
    split at h
    · cases h
    · next hseen =>
      obtain ⟨hnodup, hfresh⟩ := ih h
      refine ⟨List.nodup_cons.2 ⟨fun hmem => ?_, hnodup⟩, fun it hit => ?_⟩
      · obtain ⟨it, hit, hid⟩ := List.mem_map.1 hmem
        exact hfresh it hit (by simp [hid])
      · rcases List.mem_cons.1 hit with rfl | hit
        · simpa using hseen
        · exact fun hmem => hfresh it hit (List.mem_append_left _ hmem)

/-- The list with a batch behind it. -/
def added (s : State) (batch : List Item) : State := ⟨s.items ++ batch, s.filed ++ findingIds batch⟩

/-- New items, each finding among them open or merged into an open one. -/
theorem Sound.added (h : Sound s) (hnone : repeated (s.items.map (·.id)) batch = none)
    (hnew : ∀ it ∈ batch, it.kind = FINDING → Coder.dotted it.id ∧ (it.status ≠ MERGED ∨ IntoOpen (s.items ++ batch) it))
    (hnamed : ∀ it ∈ batch, it.kind = FOLLOW_UP → it.id ≠ NEW) : Sound (added s batch) := by
  obtain ⟨hnodup, hfresh⟩ := repeated_none hnone
  have hrow : ∀ it ∈ s.items ++ batch, it ∈ s.items ∨ it ∈ batch := fun it hit => List.mem_append.1 hit
  refine ⟨?_, fun id hid => ?_, ?_, fun it hit hkind => ?_, fun it hit hkind => ?_⟩
  · have hapart : ∀ a ∈ s.items.map (·.id), ∀ b ∈ batch.map (·.id), a ≠ b := by
      rintro a ha b hb rfl
      obtain ⟨it, hit, rfl⟩ := List.mem_map.1 hb
      exact hfresh it hit ha
    show ((s.items ++ batch).map (·.id)).Nodup
    rw [List.map_append]
    exact List.nodup_append.2 ⟨h.ids, hnodup, hapart⟩
  · rcases List.mem_append.1 hid with hid | hid
    · obtain ⟨it, hit, hid⟩ := h.filed id hid
      exact ⟨it, List.mem_append_left _ hit, hid⟩
    · obtain ⟨it, hit, hid⟩ := mem_findingIds.1 hid
      exact ⟨it, List.mem_append_right _ hit, hid⟩
  · apply leads_of_moves h
    · exact fun it hit hkind => ⟨it, List.mem_append_left _ hit, .same hkind⟩
    · intro it hit hkind
      rcases hrow it hit with hit | hit
      · exact .inl ⟨it, hit, hkind, rfl⟩
      · exact .inr (hnew it hit hkind).2
  · rcases hrow it hit with hit | hit
    · exact h.dotted it hit hkind
    · exact (hnew it hit hkind).1
  · rcases hrow it hit with hit | hit
    · exact h.named it hit hkind
    · exact hnamed it hit hkind

/-- The list when an item has been replaced. -/
def replaced (s : State) (item : Item) : State := added { s with items := prune item.id (some [item.kind]) s.items } [item]

/-- The item takes the place of `old`. -/
structure Takes (s : State) (item old : Item) : Prop where
  mem : old ∈ s.items
  id : old.id = item.id
  kind : old.kind = item.kind

theorem mem_replaced (hids : (s.items.map (·.id)).Nodup) (htakes : Takes s item old) :
    it ∈ (replaced s item).items ↔ it = item ∨ it ∈ s.items ∧ it.id ≠ item.id := by
  have hrow : it ∈ (replaced s item).items ↔ (it ∈ s.items ∧ (it.id = item.id → it.kind ≠ item.kind)) ∨ it = item := by
    show it ∈ prune item.id (some [item.kind]) s.items ++ [item] ↔ _
    rw [List.mem_append, mem_prune, List.mem_singleton]
  rw [hrow]
  constructor
  · rintro (⟨hit, hkind⟩ | rfl)
    · refine .inr ⟨hit, fun hid => ?_⟩
      obtain rfl := eq_of_key hids hit htakes.mem (hid.trans htakes.id.symm)
      exact hkind hid htakes.kind
    · exact .inl rfl
  · rintro (rfl | ⟨hit, hne⟩)
    · exact .inr rfl
    · exact .inl ⟨hit, fun hid => absurd hid hne⟩

/-- Its id is free once `old` is gone. -/
theorem free_id (hids : (s.items.map (·.id)).Nodup) (htakes : Takes s item old) :
    item.id ∉ (prune item.id (some [item.kind]) s.items).map (·.id) := by
  intro hmem
  obtain ⟨it, hit, hid⟩ := List.mem_map.1 hmem
  obtain ⟨hold, hkind⟩ := mem_prune.1 hit
  obtain rfl := eq_of_key hids hold htakes.mem (hid.trans htakes.id.symm)
  exact hkind hid htakes.kind

theorem replaced_ids (hids : (s.items.map (·.id)).Nodup) (htakes : Takes s item old) :
    ((replaced s item).items.map (·.id)).Nodup := by
  have hnodup : ((prune item.id (some [item.kind]) s.items).map (·.id)).Nodup := hids.sublist (List.filter_sublist.map _)
  show ((prune item.id (some [item.kind]) s.items ++ [item]).map (·.id)).Nodup
  rw [List.map_append, List.nodup_append]
  refine ⟨hnodup, List.nodup_singleton _, ?_⟩
  rintro a ha b hb rfl
  have hid : a = item.id := List.mem_singleton.1 hb
  exact free_id hids htakes (hid ▸ ha)

/-- The item stays on the list, and a finding is re-opened, keeps its link, or is merged into another that
is not merged. -/
theorem Sound.replaced (h : Sound s) (htakes : Takes s item old)
    (hlink : item.kind = FINDING → item.status ≠ MERGED ∨
      (old.status = MERGED ∧ item.status = MERGED ∧ item.content.same_as = old.content.same_as) ∨
      item.status = MERGED ∧ ∃ root ∈ s.items, root.id ≠ item.id ∧ root.kind = FINDING ∧ root.status ≠ MERGED ∧
        item.content.same_as = some root.id) : Sound (replaced s item) := by
  have hmem := fun it : Item => @mem_replaced s it item old h.ids htakes
  have hinto : item.kind = FINDING → item.status ≠ MERGED ∨
      (old.status = MERGED ∧ item.status = MERGED ∧ item.content.same_as = old.content.same_as) ∨
      IntoOpen (Coder.replaced s item).items item := by
    intro hkind
    rcases hlink hkind with hopen | hsame | ⟨hmerged, root, hroot, hne, hrest⟩
    · exact .inl hopen
    · exact .inr (.inl hsame)
    · exact .inr (.inr ⟨hmerged, root, (hmem root).2 (.inr ⟨hroot, hne⟩), hrest⟩)
  have hmoves : ∀ it ∈ s.items, it.kind = FINDING →
      ∃ it' ∈ (Coder.replaced s item).items, Moves (Coder.replaced s item).items it it' := by
    intro it hit hkind
    by_cases hid : it.id = item.id
    · obtain rfl := h.eq_of_id hit htakes.mem (hid.trans htakes.id.symm)
      have hitem : item.kind = FINDING := htakes.kind.symm.trans hkind
      exact ⟨item, (hmem item).2 (.inl rfl), htakes.id.symm, hitem, hinto hitem⟩
    · exact ⟨it, (hmem it).2 (.inr ⟨hit, hid⟩), .same hkind⟩
  refine ⟨?_, fun id hid => ?_, ?_, fun it hit hkind => ?_, fun it hit hkind => ?_⟩
  · exact replaced_ids h.ids htakes
  · rcases List.mem_append.1 hid with hid | hid
    · obtain ⟨it, hit, rfl, hkind⟩ := h.filed id hid
      obtain ⟨it', hit', hmove⟩ := hmoves it hit hkind
      exact ⟨it', hit', hmove.id, hmove.kind⟩
    · obtain ⟨it, hit, hrow⟩ := mem_findingIds.1 hid
      obtain rfl := List.mem_singleton.1 hit
      exact ⟨it, (hmem it).2 (.inl rfl), hrow⟩
  · apply leads_of_moves h hmoves
    intro it hit hkind
    rcases (hmem it).1 hit with rfl | ⟨hit, -⟩
    · exact .inl ⟨old, htakes.mem, htakes.kind.trans hkind, htakes.id⟩
    · exact .inl ⟨it, hit, hkind, rfl⟩
  · rcases (hmem it).1 hit with rfl | ⟨hit, -⟩
    · rw [← htakes.id]
      exact h.dotted old htakes.mem (htakes.kind.trans hkind)
    · exact h.dotted it hit hkind
  · rcases (hmem it).1 hit with rfl | ⟨hit, -⟩
    · rw [← htakes.id]
      exact h.named old htakes.mem (htakes.kind.trans hkind)
    · exact h.named it hit hkind

end Invariant

/-! ## Operations -/

section Operations

variable {α : Type} {I E : State → Prop} {s : State} {batch : List Item}

theorem holds_items {Q : State → List Item → Prop} {kind : WorkList.KindFilter} (h : Q s (ofKind s.items kind)) :
    Holds I E Q (items kind) s := h

theorem holds_lift {Q : State → α → Prop} {r : Except Raised α} (hok : ∀ a, r = .ok a → Q s a)
    (herror : ∀ e, r = .error e → E s) : Holds I E Q (lift r) s := by
  cases r with
  | ok a => exact hok a rfl
  | error e => exact herror e rfl

theorem holds_edit {Q : State → Unit → Prop} {f : List Item → List Item} (hI : I { s with items := f s.items })
    (h : Q { s with items := f s.items } ()) : Holds I E Q (edit false f) s :=
  ⟨fun _ => hI, h⟩

theorem holds_add {Q : State → List Item → Prop} (hE : repeated (s.items.map (·.id)) batch ≠ none → E s)
    (hI : repeated (s.items.map (·.id)) batch = none → I (added s batch))
    (h : repeated (s.items.map (·.id)) batch = none → Q (added s batch) batch) : Holds I E Q (add batch) s := by
  unfold add
  apply holds_bind
  apply holds_items
  have hall : ofKind s.items none = s.items := List.filter_true _
  rw [hall]
  cases hrep : repeated (s.items.map (·.id)) batch with
  | some id => exact holds_throw (hE (by rw [hrep]; exact fun heq => (nomatch heq)))
  | none => exact ⟨fun _ => hI hrep, h hrep⟩

/-- A replacement is one write of two halves, and does not raise. -/
theorem holds_replace {Q : State → Unit → Prop} {item old : Item} (hids : (s.items.map (·.id)).Nodup)
    (htakes : Takes s item old) (hI : I (replaced s item)) (h : Q (replaced s item) ()) :
    Holds I E Q (replace item) s := by
  have hfree : repeated ((prune item.id (some [item.kind]) s.items).map (·.id)) [item] = none := by
    simp [repeated, free_id hids htakes]
  have hadd : Holds I E (fun s _ => Q s ()) (add [item]) { s with items := prune item.id (some [item.kind]) s.items } :=
    holds_add (fun hne => absurd hfree hne) (fun _ => hI) (fun _ => h)
  unfold replace
  apply holds_bind
  refine ⟨fun hhalf => (nomatch hhalf), ?_⟩
  exact holds_bind (hadd.mono fun s _ hQ => holds_pure hQ)

/-- What `file` finds to be new. -/
structure Fresh (stored batch new : List Item) (caller : Text) : Prop where
  checked : ∀ it ∈ batch, _check FILERS it.kind caller (lit "file") = .ok ()
  sub : ∀ it ∈ new, it ∈ batch
  rest : ∀ it ∈ batch, it ∈ new ∨ ∃ known ∈ stored, known.id = it.id ∧ payload_digest known = payload_digest it

/-- An item is new, or one of its id and digest is known. -/
theorem freshStep_ok {stored acc next : List Item} {caller : Text} {it : Item} (h : freshStep stored caller acc it = .ok next) :
    _check FILERS it.kind caller (lit "file") = .ok () ∧ (next = acc ++ [it] ∨
      next = acc ∧ ∃ known ∈ stored, known.id = it.id ∧ payload_digest known = payload_digest it) := by
  unfold freshStep at h
  cases hcheck : _check FILERS it.kind caller (lit "file") with
  | error e =>
    rw [hcheck] at h
    cases h
  | ok u =>
    rw [hcheck] at h
    refine ⟨rfl, ?_⟩
    cases hfind : stored.find? (fun known => known.id = it.id) with
    | none =>
      rw [hfind] at h
      exact .inl (Except.ok.inj h).symm
    | some known =>
      rw [hfind] at h
      simp only [bind, Except.bind] at h
      split at h
      · cases h
      · next hdigest =>
        have hid : known.id = it.id := by simpa using List.find?_some hfind
        exact .inr ⟨(Except.ok.inj h).symm, known, List.mem_of_find?_eq_some hfind, hid, not_not.1 hdigest⟩

theorem fresh_ok {stored : List Item} {caller : Text} {new : List Item} (h : fresh stored caller batch = .ok new) :
    Fresh stored batch new caller := by
  have hall : ∀ acc new : List Item, batch.foldlM (freshStep stored caller) acc = .ok new →
      (∀ it ∈ batch, _check FILERS it.kind caller (lit "file") = .ok ()) ∧
      (∀ it ∈ new, it ∈ acc ∨ it ∈ batch) ∧ (∀ it ∈ acc, it ∈ new) ∧
        ∀ it ∈ batch, it ∈ new ∨ ∃ known ∈ stored, known.id = it.id ∧ payload_digest known = payload_digest it := by
    clear h new
    induction batch with
    | nil =>
      intro acc new h
      obtain rfl := Except.ok.inj h
      exact ⟨fun it hit => absurd hit List.not_mem_nil, fun it hit => .inl hit, fun it hit => hit,
        fun it hit => absurd hit List.not_mem_nil⟩
    | cons a batch ih =>
      intro acc new h
      rw [List.foldlM_cons] at h
      cases hstep : freshStep stored caller acc a with
      | error e =>
        rw [hstep] at h
        cases h
      | ok next =>
        rw [hstep] at h
        obtain ⟨hchecked, hsub, hacc, hrest⟩ := ih next new h
        obtain ⟨hcheck, hnext⟩ := freshStep_ok hstep
        refine ⟨List.forall_mem_cons.2 ⟨hcheck, hchecked⟩, ?_⟩
        rcases hnext with rfl | ⟨rfl, hknown⟩
        · refine ⟨fun it hit => ?_, fun it hit => hacc it (List.mem_append_left _ hit), fun it hit => ?_⟩
          · rcases hsub it hit with hit | hit
            · rcases List.mem_append.1 hit with hit | hit
              · exact .inl hit
              · exact .inr (List.mem_cons.2 (.inl (List.mem_singleton.1 hit)))
            · exact .inr (List.mem_cons_of_mem _ hit)
          · rcases List.mem_cons.1 hit with rfl | hit
            · exact .inl (hacc it (by simp))
            · exact hrest it hit
        · refine ⟨fun it hit => (hsub it hit).imp id (List.mem_cons_of_mem _), hacc, fun it hit => ?_⟩
          rcases List.mem_cons.1 hit with rfl | hit
          · exact .inr hknown
          · exact hrest it hit
  obtain ⟨hchecked, hsub, -, hrest⟩ := hall [] new h
  exact ⟨hchecked, fun it hit => (hsub it hit).resolve_left List.not_mem_nil, hrest⟩

theorem holds_file {Q : State → List Item → Prop} {caller : Text} (hE : E s)
    (h : ∀ new, Fresh s.items batch new caller → repeated (s.items.map (·.id)) new = none → I (added s new) ∧ Q (added s new) new) :
    Holds I E Q (file batch caller) s := by
  unfold file
  apply holds_bind
  apply holds_items
  have hall : ofKind s.items none = s.items := List.filter_true _
  rw [hall]
  apply holds_bind
  apply holds_lift
  · intro new hnew
    exact holds_add (fun _ => hE) (fun hrep => (h new (fresh_ok hnew) hrep).1) (fun hrep => (h new (fresh_ok hnew) hrep).2)
  · exact fun _ _ => hE

/-- One item that is not there, filed by one who may. -/
theorem holds_file_one {Q : State → List Item → Prop} {caller : Text} {one : Item}
    (hfree : s.items.find? (fun it => it.id = one.id) = none) (hcheck : _check FILERS one.kind caller (lit "file") = .ok ())
    (hI : I (added s [one])) (h : Q (added s [one]) [one]) : Holds I E Q (file [one] caller) s := by
  have hall : ofKind s.items none = s.items := List.filter_true _
  have hnew : fresh s.items caller [one] = .ok [one] := by
    unfold fresh freshStep
    rw [List.foldlM_cons, hcheck, hfree]
    rfl
  have hnot : one.id ∉ s.items.map (·.id) := by
    intro hmem
    obtain ⟨it, hit, hid⟩ := List.mem_map.1 hmem
    have hno := List.find?_eq_none.1 hfree it hit
    exact hno (by simpa using hid)
  have hrep : repeated (s.items.map (·.id)) [one] = none := by simp [repeated, hnot]
  unfold file
  apply holds_bind
  apply holds_items
  rw [hall]
  apply holds_bind
  apply holds_lift
  · intro new hok
    obtain rfl := Except.ok.inj (hnew.symm.trans hok)
    exact holds_add (fun hne => absurd hrep hne) (fun _ => hI) (fun _ => h)
  · intro e herror
    rw [hnew] at herror
    cases herror

/-- A batch that is known, item by item, holds nothing new. -/
theorem fresh_known {stored : List Item} {caller : Text}
    (hcheck : ∀ it ∈ batch, _check FILERS it.kind caller (lit "file") = .ok ())
    (hknown : ∀ it ∈ batch, ∃ known ∈ stored, known.id = it.id)
    (hdigest : ∀ it ∈ batch, ∀ known ∈ stored, known.id = it.id → payload_digest known = payload_digest it) :
    fresh stored caller batch = .ok [] := by
  unfold fresh
  induction batch with
  | nil => rfl
  | cons it batch ih =>
    obtain ⟨known, hmem, hid⟩ := hknown it List.mem_cons_self
    have hstep : freshStep stored caller [] it = .ok [] := by
      unfold freshStep
      rw [hcheck it List.mem_cons_self]
      cases hfind : stored.find? (fun known => known.id = it.id) with
      | none => exact absurd (by simpa using hid) (List.find?_eq_none.1 hfind known hmem)
      | some found =>
        have hfound : found.id = it.id := by simpa using List.find?_some hfind
        have hsame := hdigest it List.mem_cons_self found (List.mem_of_find?_eq_some hfind) hfound
        simp only [bind, Except.bind]
        exact if_neg (not_not.2 hsame)
    rw [List.foldlM_cons, hstep]
    exact ih (fun x hx => hcheck x (List.mem_cons_of_mem _ hx)) (fun x hx => hknown x (List.mem_cons_of_mem _ hx))
      (fun x hx => hdigest x (List.mem_cons_of_mem _ hx))

end Operations

end Stablemate.Coder
