import Mathlib.Data.List.ReduceOption
import Stablemate.Lib.TwoRun
import Stablemate.Model.Verbs

/-!
# What a reply tells of a stored value

* `Veil`: two values that differ in nothing but their text: of one length, typable or not alike, and
  as seeds decoded or refused alike.
* `Veiled`: a store whose answers from two states are equal, but for the values themselves;
  `veiled_storeOf`: the keyring and Vault are such stores.
* `Guarded`: what a reply may tell; `handle_twin`: one request, `serve_twin`: any run of requests.
-/

namespace Stablemate.Saddlebag

open PyJson (Value Key Entries)
open TwoRun (Agree AgreeFrom Blind Alike outcome Rel.mono Rel.map Rel.isSome Rel.filter Rel.filterMap)

/-- Two values that differ in nothing but their text. -/
structure Veil (v w : Text) : Prop where
  length : v.length = w.length
  typable : can_type v = can_type w
  seed : (decode_seed v).map (fun _ => ()) = (decode_seed w).map fun _ => ()

/-- What two runs read in a field: stored values with `V`, or the same text. -/
def Read (V : Text → Text → Text → Prop) (field v w : Text) : Prop := if field ∈ VALUE_FIELDS then V field v w else v = w

theorem read_iff {V : Text → Text → Text → Prop} {field v w : Text} (h : field ∈ VALUE_FIELDS) :
    Read V field v w ↔ V field v w := by
  unfold Read
  rw [if_pos h]

/-- A field that a request may name. -/
def Named (field : Text) : Prop := field ∈ FIELDS ∨ META_PREFIX.isPrefixOf field = true

/-- **A store that answers the same from related states**, but for stored values, which have `V`. -/
structure Veiled {τ : Type} (store : SecretStore τ) (Same : τ → τ → Prop) (V : Text → Text → Text → Prop) : Prop where
  health : Blind Same store.health
  names : Blind Same store.names
  get : ∀ name, Blind Same (store.get name)
  create : ∀ secret, Blind Same (store.create secret)
  set_value : ∀ name field value, Blind Same (store.set_value name field value)
  unset_value : ∀ name field, Blind Same (store.unset_value name field)
  remove : ∀ name, Blind Same (store.remove name)
  value : ∀ name field, Named field → Agree Same (Option.Rel (Read V field)) (store.value name field) (store.value name field)
  retag : ∀ name tags, Blind Same (store.retag name tags)
  set_metadata : ∀ name metadata, Blind Same (store.set_metadata name metadata)

/-- Two records of one secret: the same but for the order of the fields. -/
def Similar (a b : Secret) : Prop := ∃ fields, b = { a with fields } ∧ a.fields.Perm fields

/-- **Two stores that answer alike from related states.** A change of a secret may count on its
record (`Has`), and the creation of one on its absence (`Lacks`). -/
structure Paired {τ : Type} (store store' : SecretStore τ) (Same : τ → τ → Prop) (Has Lacks : Text → τ → τ → Prop)
    (V : Text → Text → Text → Prop) : Prop where
  names : Agree Same Eq store.names store'.names
  get : ∀ name, Agree Same (Option.Rel Similar) (store.get name) (store'.get name)
  has : ∀ name s t a, Same s t → (outcome (store.get name) s).1 = .ok (some a) →
    Has a.name (outcome (store.get name) s).2 (outcome (store'.get name) t).2
  lacks : ∀ name s t, Same s t → (outcome (store.get name) s).1 = .ok none →
    Lacks name (outcome (store.get name) s).2 (outcome (store'.get name) t).2
  create : ∀ secret, secret.fields = [] →
    AgreeFrom (fun s t => Same s t ∧ Lacks secret.name s t) Same Eq (store.create secret) (store'.create secret)
  set_value : ∀ name field value, field ∈ VALUE_FIELDS → value ≠ [] →
    AgreeFrom (fun s t => Same s t ∧ Has name s t) Same Eq (store.set_value name field value) (store'.set_value name field value)
  unset_value : ∀ name field, field ∈ VALUE_FIELDS →
    AgreeFrom (fun s t => Same s t ∧ Has name s t) Same Eq (store.unset_value name field) (store'.unset_value name field)
  remove : ∀ name, AgreeFrom (fun s t => Same s t ∧ Has name s t) Same Eq (store.remove name) (store'.remove name)
  value : ∀ name field, Named field → Agree Same (Option.Rel (Read V field)) (store.value name field) (store'.value name field)
  retag : ∀ name tags, AgreeFrom (fun s t => Same s t ∧ Has name s t) Same Eq (store.retag name tags) (store'.retag name tags)
  set_metadata : ∀ name metadata,
    AgreeFrom (fun s t => Same s t ∧ Has name s t) Same Eq (store.set_metadata name metadata) (store'.set_metadata name metadata)

theorem Similar.refl (a : Secret) : Similar a a := ⟨a.fields, rfl, List.Perm.refl _⟩

theorem Veiled.paired {τ : Type} {store : SecretStore τ} {Same : τ → τ → Prop} {V : Text → Text → Text → Prop}
    (h : Veiled store Same V) : Paired store store Same (fun _ _ _ => True) (fun _ _ _ => True) V where
  names := h.names
  get name := by
    refine (h.get name).mono fun a b hab => ?_
    subst hab
    cases a with
    | none => exact .none
    | some secret => exact .some (Similar.refl secret)
  has _ _ _ _ _ _ := trivial
  lacks _ _ _ _ _ := trivial
  create secret _ := Agree.from (h.create secret) fun _ _ hst => hst.1
  set_value name field value _ _ := Agree.from (h.set_value name field value) fun _ _ hst => hst.1
  unset_value name field _ := Agree.from (h.unset_value name field) fun _ _ hst => hst.1
  remove name := Agree.from (h.remove name) fun _ _ hst => hst.1
  value := h.value
  retag name tags := Agree.from (h.retag name tags) fun _ _ hst => hst.1
  set_metadata name metadata := Agree.from (h.set_metadata name metadata) fun _ _ hst => hst.1

/-- The browser and the device behave the same, whatever value of one length they are given. -/
structure Doors.Same {σ : Type} (doors : Doors σ) : Prop where
  insert_text : ∀ v w s, v.length = w.length → doors.insert_text v s = doors.insert_text w s
  type_text : ∀ v w s, v.length = w.length → can_type v = true → can_type w = true →
    doors.type_text v s = doors.type_text w s

variable {τ σ α : Type} {store store' : SecretStore τ} {doors : Doors σ} {Same : τ → τ → Prop} {args : Entries}
variable {V : Text → Text → Text → Prop} {Has Lacks : Text → τ → τ → Prop}

/-- Two bags that differ in nothing but stored values. -/
structure Twin (Same : τ → τ → Prop) (a b : Bag τ σ) : Prop where
  shelf : Same a.shelf b.shelf
  world : a.world = b.world
  log : a.log = b.log

/-! ## Single calls -/

theorem agree_onShelf {P : α → α → Prop} {c d : Call τ α} (h : Agree Same P c d) :
    Agree (Twin (σ := σ) Same) P (onShelf c) (onShelf d) := by
  intro a b hab
  obtain ⟨halike, hsame⟩ := h a.shelf b.shelf hab.shelf
  exact ⟨halike, hsame, hab.world, hab.log⟩

theorem blind_door (f : σ → Except Raised α × σ) : Blind (Twin Same) (door f : Run τ σ α) := by
  intro a b hab
  have hworld : outcome (door f : Run τ σ α) a = ((f a.world).1, { a with world := (f a.world).2 }) := rfl
  have hworld' : outcome (door f : Run τ σ α) b = ((f b.world).1, { b with world := (f b.world).2 }) := rfl
  rw [hworld, hworld', hab.world]
  refine ⟨?_, hab.shelf, rfl, hab.log⟩
  cases (f b.world).1 <;> rfl

theorem blind_logLine (line : Text) : Blind (Twin Same) (logLine line : Run τ σ Unit) := by
  refine Agree.modify fun a b hab => ⟨hab.shelf, hab.world, ?_⟩
  show a.log ++ [line] = b.log ++ [line]
  rw [hab.log]

theorem blind_request (message : Text) : Blind (Twin Same) (request message : Run τ σ α) := Blind.raise _

theorem blind_checked (r : Checked α) : Blind (Twin Same) (_checked r : Run τ σ α) := by
  cases r with
  | ok value => exact Blind.pure value
  | error message => exact blind_request message

theorem agree_checked (r : Checked α) : Agree (Twin (σ := σ) Same) (fun a b => a = b ∧ r = .ok a) (_checked r) (_checked r) := by
  cases r with
  | ok value => exact Agree.pure ⟨rfl, rfl⟩
  | error message => exact Agree.raise _

theorem validate_field_spec {name field : Text} (h : validate_field name = .ok field) : field = name ∧ Named field := by
  unfold validate_field at h
  split at h
  · rename_i hmem
    obtain rfl := Except.ok.inj h
    exact ⟨rfl, .inl (List.contains_iff_mem.1 hmem)⟩
  · split at h
    · rename_i hprefix
      cases hkey : validate_meta_key (name.drop META_PREFIX.length) with
      | error message =>
        rw [hkey] at h
        cases h
      | ok key =>
        rw [hkey] at h
        obtain rfl := Except.ok.inj h
        exact ⟨rfl, .inr (Bool.and_eq_true_iff.1 hprefix).2⟩
    · cases h

theorem blind_text (key : Text) (required : Bool) :
    Blind (Twin Same) (_text args key required : Run τ σ (Option Text)) := by
  unfold _text
  dsimp only
  split
  · split
    · exact blind_request _
    · exact Blind.pure none
  · split
    · exact Blind.pure _
    · exact blind_request _

theorem blind_required (key : Text) : Blind (Twin Same) (_required args key : Run τ σ Text) := by
  unfold _required
  refine Blind.bind (blind_text key true) fun value => ?_
  cases value with
  | some value => exact Blind.pure value
  | none => exact Blind.raise _

theorem blind_listed (key expected : Text) : Blind (Twin Same) (listed args key expected : Run τ σ (List Text)) := by
  unfold listed
  dsimp only
  split
  · split
    · exact Blind.pure _
    · exact blind_request _
  · exact Blind.pure []

theorem blind_tags (key : Text) : Blind (Twin Same) (_tags args key : Run τ σ (List Tag)) := by
  unfold _tags
  exact (blind_listed _ _).bind fun texts => (blind_checked _).bind fun pairs => Blind.pure _

theorem blind_metadata (key : Text) : Blind (Twin Same) (_metadata args key : Run τ σ (List (Text × Text))) := by
  unfold _metadata
  refine (blind_listed _ _).bind fun texts => Blind.foldlM (fun pairs item => ?_) []
  refine (blind_checked _).bind fun pair => ?_
  dsimp only
  split
  · exact (blind_request _).bind fun _ => Blind.pure _
  · exact Blind.pure _

/-- A refusal before the rest of a handler. -/
theorem agree_unless {β γ : Type} {P : β → γ → Prop} {c : Prop} [Decidable c] {e : Raised} {f : PUnit → Run τ σ β}
    {g : PUnit → Run τ σ γ} (hfg : Agree (Twin Same) P (f ⟨⟩) (g ⟨⟩)) :
    Agree (Twin Same) P (if c then (throw e : Run τ σ PUnit) >>= f else f ⟨⟩)
      (if c then (throw e : Run τ σ PUnit) >>= g else g ⟨⟩) := by
  split
  · exact (Agree.raise e : Agree _ Eq _ _).bind fun _ _ _ => hfg
  · exact hfg

/-- A refusal before a rest that counts on its condition. -/
theorem agree_past {β γ : Type} {K : τ → τ → Prop} {P : β → γ → Prop} {c c' : Prop} [Decidable c] [Decidable c'] {e : Raised}
    {f : PUnit → Run τ σ β} {g : PUnit → Run τ σ γ} (hcc' : c ↔ c') (hK : ∀ s t, K s t → Same s t)
    (hfg : ¬c → AgreeFrom (Twin K) (Twin Same) P (f ⟨⟩) (g ⟨⟩)) :
    AgreeFrom (Twin K) (Twin Same) P (if c then (throw e : Run τ σ PUnit) >>= f else f ⟨⟩)
      (if c' then (throw e : Run τ σ PUnit) >>= g else g ⟨⟩) := by
  by_cases hc : c
  · rw [if_pos hc, if_pos (hcc'.1 hc)]
    exact fun s t hst => ⟨rfl, hK _ _ hst.shelf, hst.world, hst.log⟩
  · rw [if_neg hc, if_neg (mt hcc'.2 hc)]
    exact hfg hc

theorem twin_mono {K : τ → τ → Prop} (hK : ∀ s t, K s t → Same s t) (a b : Bag τ σ) (h : Twin K a b) : Twin Same a b :=
  ⟨hK _ _ h.shelf, h.world, h.log⟩

/-- A change of the store that counts on something, and the reply. -/
theorem agree_reply {K : τ → τ → Prop} {c d : Call τ Unit} {r : Entries} (h : AgreeFrom K Same Eq c d) :
    AgreeFrom (Twin K) (Twin Same) Eq (do onShelf c; pure r : Run τ σ Entries) (do onShelf d; pure r) := by
  have hshelf : AgreeFrom (Twin (σ := σ) K) (Twin Same) Eq (onShelf c) (onShelf d) := by
    intro a b hab
    obtain ⟨halike, hsame⟩ := h a.shelf b.shelf hab.shelf
    exact ⟨halike, hsame, hab.world, hab.log⟩
  exact hshelf.bind fun _ _ _ => Agree.pure rfl

/-! ## Handlers over two stores -/

theorem Similar.to_dict {a b : Secret} (h : Similar a b) : a.to_dict = b.to_dict := by
  obtain ⟨fields, rfl, hperm⟩ := h
  have hsorted : sortedTexts a.fields = sortedTexts fields := by
    unfold sortedTexts
    exact ((List.perm_insertionSort _ _).trans (hperm.trans (List.perm_insertionSort _ _).symm)).eq_of_pairwise
      (fun _ _ _ _ => le_antisymm) (List.pairwise_insertionSort _ _) (List.pairwise_insertionSort _ _)
  unfold Secret.to_dict
  rw [hsorted]

section Store

variable (h : Paired store store' Same Has Lacks V)
include h

theorem agree_existing : Agree (Twin Same) Similar (_existing store args : Run τ σ Secret) (_existing store' args) := by
  unfold _existing
  refine Agree.bind (blind_required _) fun name name' hname => ?_
  subst hname
  refine (agree_onShelf (h.get name)).bind fun a b hab => ?_
  cases hab with
  | some hsim => exact Agree.pure hsim
  | none => exact blind_request _

/-- **What follows the look for a secret may count on its record.** -/
theorem existing_then {β : Type} {Q : β → β → Prop} {f g : Secret → Run τ σ β}
    (hfg : ∀ a b, Similar a b → AgreeFrom (Twin fun s t => Same s t ∧ Has a.name s t) (Twin Same) Q (f a) (g b)) :
    Agree (Twin Same) Q (_existing store args >>= f) (_existing store' args >>= g) := by
  unfold _existing
  simp only [bind_assoc]
  refine Agree.bind (blind_required _) fun name name' hname => ?_
  subst hname
  refine Agree.knowing (K := fun a _ s t => ∀ secret, a = some secret → Has secret.name s.shelf t.shelf)
    (agree_onShelf (h.get name)) (fun s t a b hst ha _ secret heq => ?_) (fun _ _ hst => hst) fun a b hab => ?_
  · subst heq
    exact h.has name s.shelf t.shelf secret hst.shelf ha
  · cases hab with
    | @some a b hsim =>
      exact (hfg a b hsim).pre fun s t hst => ⟨⟨hst.1.shelf, hst.2 a rfl⟩, hst.1.world, hst.1.log⟩
    | none => exact fun s t hst => ⟨rfl, hst.1⟩

theorem agree_found (names : List Text) :
    Agree (Twin Same) (List.Forall₂ (Option.Rel Similar))
      (names.mapM (fun name => onShelf (store.get name)) : Run τ σ (List (Option Secret)))
      (names.mapM fun name => onShelf (store'.get name)) :=
  Agree.mapM fun name _ => agree_onShelf (h.get name)

omit h in
theorem similar_matching {l l' : List (Option Secret)} (hl : List.Forall₂ (Option.Rel Similar) l l') (tags : List Tag) :
    List.Forall₂ Similar (l.reduceOption.filter fun secret => matchesTags secret.tags tags)
      (l'.reduceOption.filter fun secret => matchesTags secret.tags tags) := by
  induction hl with
  | nil => exact .nil
  | cons hab _ ih =>
    cases hab with
    | none => exact ih
    | some hsim =>
      obtain ⟨fields, rfl, hperm⟩ := hsim
      simp only [List.reduceOption_cons_of_some, List.filter_cons]
      split
      · exact .cons ⟨fields, rfl, hperm⟩ ih
      · exact ih

theorem agree_matching (tags : List Tag) : Agree (Twin Same) (List.Forall₂ Similar)
    (_matching store tags : Run τ σ (List Secret)) (_matching store' tags) := by
  unfold _matching
  refine Agree.bind (agree_onShelf h.names) fun names names' hnames => ?_
  subst hnames
  exact (agree_found h names).bind fun found found' hfound => Agree.pure (similar_matching hfound tags)

theorem agree_list : Agree (Twin Same) Eq (verb_list store args : Run τ σ Entries) (verb_list store' args) := by
  unfold verb_list
  refine Agree.bind (blind_tags _) fun tags tags' htags => ?_
  subst htags
  refine (agree_matching h tags).bind fun secrets secrets' hsecrets => Agree.pure ?_
  have hdicts : secrets.map Secret.to_dict = secrets'.map Secret.to_dict := by
    induction hsecrets with
    | nil => rfl
    | cons hab _ ih => rw [List.map_cons, List.map_cons, hab.to_dict, ih]
  rw [hdicts]

theorem agree_verb_tags : Agree (Twin Same) Eq (verb_tags store args : Run τ σ Entries) (verb_tags store' args) := by
  unfold verb_tags
  refine Agree.bind (blind_tags _) fun tags tags' htags => ?_
  subst htags
  refine (agree_matching h tags).bind fun secrets secrets' hsecrets => Agree.pure ?_
  have hpairs : secrets.flatMap (·.tags) = secrets'.flatMap (·.tags) := by
    induction hsecrets with
    | nil => rfl
    | cons hab _ ih =>
      obtain ⟨fields, rfl, -⟩ := hab
      rw [List.flatMap_cons, List.flatMap_cons, ih]
  rw [hpairs]

theorem agree_create : Agree (Twin Same) Eq (verb_create store args : Run τ σ Entries) (verb_create store' args) := by
  unfold verb_create
  refine Agree.bind (blind_required _) fun name name' hname => ?_
  subst hname
  refine Agree.bind (blind_checked _) fun name name' hname => ?_
  subst hname
  refine Agree.knowing (K := fun a _ s t => a = none → Lacks name s.shelf t.shelf)
    (agree_onShelf (h.get name)) (fun s t a b hst ha _ heq => ?_) (fun _ _ hst => hst) fun a b hab => ?_
  · subst heq
    exact h.lacks name s.shelf t.shelf hst.shelf ha
  · cases hab with
    | some _ => exact fun s t hst => ⟨rfl, hst.1⟩
    | none =>
      have hK : ∀ s t, Same s t ∧ Lacks name s t → Same s t := fun _ _ hst => hst.1
      have hmono := twin_mono (σ := σ) hK
      have hpre : ∀ s t : Bag τ σ, (Twin Same s t ∧ ((none : Option Secret) = none → Lacks name s.shelf t.shelf)) →
          Twin (fun s t => Same s t ∧ Lacks name s t) s t :=
        fun s t hst => ⟨⟨hst.1.shelf, hst.2 rfl⟩, hst.1.world, hst.1.log⟩
      refine AgreeFrom.pre (agree_past Iff.rfl hK fun _ => ?_) hpre
      refine Agree.then (blind_text _ _) hmono fun var var' hvar => ?_
      subst hvar
      refine Agree.then (blind_text _ _) hmono fun username username' husername => ?_
      subst husername
      refine Agree.then (blind_text _ _) hmono fun description description' hdescription => ?_
      subst hdescription
      refine Agree.then (blind_checked _) hmono fun var var' hvar => ?_
      subst hvar
      refine Agree.then (blind_tags _) hmono fun tags tags' htags => ?_
      subst htags
      refine Agree.then (blind_metadata _) hmono fun metadata metadata' hmetadata => ?_
      subst hmetadata
      have hcreate := h.create { name, username, description, var, tags, metadata } rfl
      exact agree_reply hcreate

/-- What a handler that has found its secret counts on. -/
abbrev Knows (Same : τ → τ → Prop) (Has : Text → τ → τ → Prop) (name : Text) (s t : τ) : Prop := Same s t ∧ Has name s t

omit h in
theorem knows_mono {name : Text} (a b : Bag τ σ) (hab : Twin (Knows Same Has name) a b) : Twin Same a b :=
  twin_mono (fun _ _ hst => hst.1) a b hab

omit h in
theorem value_field {name field : Text} (hfield : validate_field name VALUE_FIELDS = .ok field) : field ∈ VALUE_FIELDS := by
  unfold validate_field at hfield
  split at hfield
  · next hmem =>
    obtain rfl := Except.ok.inj hfield
    exact List.contains_iff_mem.1 hmem
  · next hmem =>
    rw [if_neg (by simp [VALUE_FIELDS, FIELDS, lit])] at hfield
    cases hfield

theorem agree_set : Agree (Twin Same) Eq (verb_set store args : Run τ σ Entries) (verb_set store' args) := by
  unfold verb_set
  refine existing_then h fun secret secret' hsim => ?_
  obtain ⟨fields, rfl, -⟩ := hsim
  refine Agree.then (blind_required _) knows_mono fun given given' hgiven => ?_
  subst hgiven
  refine Agree.then (agree_checked _) knows_mono fun field field' hfield => ?_
  obtain ⟨rfl, hfield⟩ := hfield
  refine Agree.then (blind_required _) knows_mono fun value value' hvalue => ?_
  subst hvalue
  refine agree_past Iff.rfl (fun _ _ hst => hst.1) fun hne => ?_
  have hrest := agree_reply (σ := σ)
    (r := [entry "name" (str secret.name), entry "field" (str field), entry "characters" (.int value.length)])
    (h.set_value secret.name field value (value_field hfield) hne)
  by_cases htotp : field = lit "totp"
  · rw [if_pos htotp, if_pos htotp]
    exact Agree.then (blind_checked _) knows_mono fun _ _ _ => hrest
  · rw [if_neg htotp, if_neg htotp]
    exact hrest

theorem agree_unset : Agree (Twin Same) Eq (verb_unset store args : Run τ σ Entries) (verb_unset store' args) := by
  unfold verb_unset
  refine existing_then h fun secret secret' hsim => ?_
  obtain ⟨fields, rfl, -⟩ := hsim
  refine Agree.then (blind_required _) knows_mono fun given given' hgiven => ?_
  subst hgiven
  refine Agree.then (agree_checked _) knows_mono fun field field' hfield => ?_
  obtain ⟨rfl, hfield⟩ := hfield
  exact agree_reply (h.unset_value _ _ (value_field hfield))

theorem agree_remove : Agree (Twin Same) Eq (verb_remove store args : Run τ σ Entries) (verb_remove store' args) := by
  unfold verb_remove
  refine existing_then h fun secret secret' hsim => ?_
  obtain ⟨fields, rfl, -⟩ := hsim
  exact agree_reply (h.remove _)

theorem agree_tag : Agree (Twin Same) Eq (verb_tag store args : Run τ σ Entries) (verb_tag store' args) := by
  unfold verb_tag
  refine existing_then h fun secret secret' hsim => ?_
  obtain ⟨fields, rfl, -⟩ := hsim
  refine Agree.then (blind_tags _) knows_mono fun tags tags' htags => ?_
  subst htags
  exact agree_reply (h.retag _ _)

theorem agree_untag : Agree (Twin Same) Eq (verb_untag store args : Run τ σ Entries) (verb_untag store' args) := by
  unfold verb_untag
  refine existing_then h fun secret secret' hsim => ?_
  obtain ⟨fields, rfl, -⟩ := hsim
  refine Agree.then (blind_tags _) knows_mono fun tags tags' htags => ?_
  subst htags
  exact agree_reply (h.retag _ _)

theorem agree_meta : Agree (Twin Same) Eq (verb_meta store args : Run τ σ Entries) (verb_meta store' args) := by
  unfold verb_meta
  refine existing_then h fun secret secret' hsim => ?_
  obtain ⟨fields, rfl, -⟩ := hsim
  refine Agree.then (blind_metadata _) knows_mono fun given given' hgiven => ?_
  subst hgiven
  exact agree_reply (h.set_metadata _ _)

theorem agree_unmeta : Agree (Twin Same) Eq (verb_unmeta store args : Run τ σ Entries) (verb_unmeta store' args) := by
  unfold verb_unmeta
  refine existing_then h fun secret secret' hsim => ?_
  obtain ⟨fields, rfl, -⟩ := hsim
  have hrest : ∀ keys : List Text, AgreeFrom (Twin (Knows Same Has secret.name)) (Twin Same) Eq (do
      let remaining ← keys.foldlM (fun (remaining : List (Text × Text)) key => do
        let _ ← _checked (validate_meta_key key)
        if !(remaining.map Prod.fst).contains key then
          request (secret.name ++ lit " has no metadata " ++ key)
        pure (remaining.filter fun kv => kv.1 ≠ key)) secret.metadata
      onShelf (store.set_metadata secret.name remaining)
      pure (metaReply secret.name remaining) : Run τ σ Entries) (do
      let remaining ← keys.foldlM (fun (remaining : List (Text × Text)) key => do
        let _ ← _checked (validate_meta_key key)
        if !(remaining.map Prod.fst).contains key then
          request (secret.name ++ lit " has no metadata " ++ key)
        pure (remaining.filter fun kv => kv.1 ≠ key)) secret.metadata
      onShelf (store'.set_metadata secret.name remaining)
      pure (metaReply secret.name remaining)) := by
    intro keys
    refine Agree.then (Blind.foldlM (fun remaining key => ?_) _) knows_mono fun remaining remaining' hremaining => ?_
    · exact (blind_checked _).bind fun _ => agree_unless (Blind.pure _)
    · subst hremaining
      exact agree_reply (h.set_metadata _ _)
  dsimp only
  split
  · cases textsOf (argument args (lit "keys")) with
    | some keys => exact Agree.then (Blind.pure keys) knows_mono fun keys keys' hkeys => hkeys ▸ hrest keys
    | none => exact Agree.then (blind_request _) knows_mono fun keys keys' hkeys => hkeys ▸ hrest keys
  · exact Agree.then (Blind.pure []) knows_mono fun keys keys' hkeys => hkeys ▸ hrest keys

/-! ## Values on their way to a field -/

/-- What a handler reads in a field. -/
theorem agree_value {secret secret' : Secret} (hsim : Similar secret secret') {field : Text} (hfield : Named field) :
    Agree (Twin (σ := σ) Same) (Read V field) (_value store secret field) (_value store' secret' field) := by
  obtain ⟨fields, rfl, -⟩ := hsim
  unfold _value
  refine (agree_onShelf (h.value _ _ hfield)).bind fun a b hab => ?_
  cases hab with
  | some hread => exact Agree.pure hread
  | none => exact Agree.raise _

end Store

/-- What `doctor` says of one store. -/
theorem blind_doctor (h : Veiled store Same V) (counter : Counter) : Blind (Twin Same) (verb_doctor store doors counter args) := by
  unfold verb_doctor
  refine Blind.bind (agree_onShelf h.health) fun health => ?_
  dsimp only
  split
  · refine Blind.bind (agree_onShelf h.names) fun names => ?_
    refine Blind.bind (Blind.mapM fun name => agree_onShelf (h.get name)) fun secrets => ?_
    exact (Blind.pure _).bind fun bare => Blind.pure _
  · exact (Blind.pure []).bind fun bare => Blind.pure _

/-! ## Codes and typed texts -/

/-- Two texts that a field takes alike. -/
structure Typable (v w : Text) : Prop where
  length : v.length = w.length
  typable : can_type v = can_type w

theorem zfill_spec {n : ℕ} (hn : n < 10 ^ 6) : (zfill 6 n).length = 6 ∧ ∀ c ∈ zfill 6 n, c.isDigit = true := by
  have hlen : (Nat.toDigits 10 n).length ≤ 6 := (Nat.length_toDigits_le_iff (by decide) (by decide)).2 hn
  unfold zfill
  constructor
  · rw [List.length_append, List.length_replicate]
    omega
  · intro c hc
    rcases List.mem_append.1 hc with hc | hc
    · rw [List.eq_of_mem_replicate hc]
      decide
    · exact Nat.isDigit_of_mem_toDigits (by decide) (by decide) hc

theorem can_type_digits {text : Text} (h : ∀ c ∈ text, c.isDigit = true) : can_type text = true := by
  have hdigit : ∀ c : Char, c.isDigit = true → (' ' ≤ c ∧ c ≤ '~') ∧ c ≠ '%' := by
    intro c hc
    rw [Char.isDigit_iff_toNat] at hc
    obtain ⟨hlow, hhigh⟩ := hc
    have hzero : '0'.toNat = 48 := rfl
    have hnine : '9'.toNat = 57 := rfl
    refine ⟨⟨?_, ?_⟩, ?_⟩
    · rw [Char.le_def, UInt32.le_iff_toNat_le]
      show 32 ≤ c.toNat
      omega
    · rw [Char.le_def, UInt32.le_iff_toNat_le]
      show c.toNat ≤ 126
      omega
    · rintro rfl
      revert hlow
      decide
  unfold can_type
  rw [Bool.and_eq_true, Bool.not_eq_true', List.all_eq_true]
  constructor
  · rw [Text.contains, decide_eq_false_iff_not]
    intro hin
    exact (hdigit _ (h _ (hin.subset List.mem_cons_self))).2 rfl
  · intro c hc
    obtain ⟨⟨hlow, hhigh⟩, -⟩ := hdigit c (h c hc)
    simp [hlow, hhigh]

theorem codeAt_spec (hmac : List ℕ → List ℕ → List ℕ) (key : List ℕ) (time : ℕ) :
    (codeAt hmac key time).length = 6 ∧ can_type (codeAt hmac key time) = true := by
  have hspec : ∀ n, (zfill 6 (n % 10 ^ 6)).length = 6 ∧ ∀ c ∈ zfill 6 (n % 10 ^ 6), c.isDigit = true :=
    fun n => zfill_spec (Nat.mod_lt n (by decide))
  unfold codeAt
  exact ⟨(hspec _).1, can_type_digits (hspec _).2⟩

/-- **What may be typed of values that `V` relates**: texts with `T`, which the doors do not tell apart. -/
structure Typing (doors : Doors σ) (V : Text → Text → Text → Prop) (T : Text → Text → Prop) : Prop where
  refl : ∀ v, T v v
  values : ∀ f ∈ VALUE_FIELDS, ∀ v w, V f v w → T v w
  codes : ∀ v w time, V (lit "totp") v w →
    Alike T ((decode_seed v).map fun key => codeAt doors.hmac key time) ((decode_seed w).map fun key => codeAt doors.hmac key time)
  typable : ∀ v w, T v w → Typable v w
  insert_text : ∀ v w s, T v w → doors.insert_text v s = doors.insert_text w s
  type_text : ∀ v w s, T v w → can_type v = true → doors.type_text v s = doors.type_text w s

/-- **Two seeds under the veil give codes that a field takes alike**, or are refused alike. -/
theorem codes_veil (hmac : List ℕ → List ℕ → List ℕ) {v w : Text} (time : ℕ) (h : Veil v w) :
    Alike Typable ((decode_seed v).map fun key => codeAt hmac key time) ((decode_seed w).map fun key => codeAt hmac key time) := by
  have hseed := h.seed
  cases hv : decode_seed v with
  | error e =>
    cases hw : decode_seed w with
    | error e' =>
      rw [hv, hw] at hseed
      exact Except.error.inj hseed
    | ok key =>
      rw [hv, hw] at hseed
      cases hseed
  | ok key =>
    cases hw : decode_seed w with
    | error e =>
      rw [hv, hw] at hseed
      cases hseed
    | ok key' =>
      obtain ⟨hlen, htype⟩ := codeAt_spec hmac key time
      obtain ⟨hlen', htype'⟩ := codeAt_spec hmac key' time
      exact ⟨hlen.trans hlen'.symm, htype.trans htype'.symm⟩

/-- What is typed under the veil. -/
theorem typing_veil (hV : ∀ f v w, V f v w → Veil v w) (hdoors : doors.Same) : Typing doors V Typable where
  refl _ := ⟨rfl, rfl⟩
  values f _ v w hvw := ⟨(hV f v w hvw).length, (hV f v w hvw).typable⟩
  codes v w time hvw := codes_veil doors.hmac time (hV _ v w hvw)
  typable _ _ h := h
  insert_text v w s h := hdoors.insert_text v w s h.length
  type_text v w s h hv := hdoors.type_text v w s h.length hv (h.typable.symm.trans hv)

/-- What is typed of equal values. -/
theorem typing_eq (doors : Doors σ) : Typing doors (fun _ v w => v = w) Eq where
  refl _ := rfl
  values _ _ _ _ h := h
  codes v w time h := by
    subst h
    cases (decode_seed v).map fun key => codeAt doors.hmac key time <;> exact rfl
  typable v w h := by
    subst h
    exact ⟨rfl, rfl⟩
  insert_text v w s h := by rw [h]
  type_text v w s h _ := by rw [h]

theorem blind_seconds : Blind (Twin Same) (seconds_remaining doors : Run τ σ ℕ) := by
  unfold seconds_remaining
  exact (blind_door _).bind fun time => Blind.pure _

section Typed

variable {T : Text → Text → Prop} (htyping : Typing doors V T)
include htyping

theorem agree_code {v w : Text} (h : V (lit "totp") v w) :
    Agree (Twin Same) (Alike T) (code doors v : Run τ σ (Checked Text)) (code doors w) := by
  unfold code
  refine Agree.bind (blind_door _) fun time time' htime => ?_
  subst htime
  exact Agree.pure (htyping.codes v w time h)

/-- **What is typed is alike in both runs**, and what is said of it is the same. -/
theorem agree_typable (h : Paired store store' Same Has Lacks V) {secret secret' : Secret} (hsim : Similar secret secret')
    {field : Text} (hnamed : Named field) :
    Agree (Twin Same) (fun p q => T p.1 q.1 ∧ p.2 = q.2) (_typable store doors secret field args)
      (_typable store' doors secret' field args) := by
  unfold _typable
  refine (agree_value h hsim hnamed).bind fun v w hvw => ?_
  by_cases hfield : field = lit "totp"
  · rw [if_neg (not_not.2 hfield), if_neg (not_not.2 hfield)]
    have hseed : V (lit "totp") v w := by
      subst hfield
      exact (read_iff (by decide)).1 hvw
    cases minSeconds args with
    | none => exact Agree.raise _
    | some minimum =>
      have hrest : ∀ remaining : ℕ, Agree (Twin Same) (fun p q => T p.1 q.1 ∧ p.2 = q.2)
          (typableCode doors secret v remaining : Run τ σ _) (typableCode doors secret' w remaining) := by
        intro remaining
        obtain ⟨fields, rfl, -⟩ := hsim
        unfold typableCode
        refine (agree_code htyping hseed).bind fun a b hab => ?_
        cases a with
        | ok a =>
          cases b with
          | ok b => exact Agree.pure ⟨hab, rfl⟩
          | error e => exact hab.elim
        | error e =>
          cases b with
          | ok b => exact hab.elim
          | error e' =>
            obtain rfl : e = e' := hab
            exact Agree.raise _
      refine Agree.bind blind_seconds fun remaining remaining' hsame => ?_
      subst hsame
      dsimp only
      split
      · refine Agree.bind (blind_door _) fun _ _ _ => Agree.bind blind_seconds fun left left' hleft => ?_
        subst hleft
        exact hrest left
      · exact hrest remaining
  · rw [if_pos hfield, if_pos hfield]
    refine Agree.pure ⟨?_, rfl⟩
    by_cases hmem : field ∈ VALUE_FIELDS
    · exact htyping.values field hmem v w ((read_iff hmem).1 hvw)
    · unfold Read at hvw
      rw [if_neg hmem] at hvw
      subst hvw
      exact htyping.refl v

omit htyping in
theorem agree_door {f g : σ → Except Raised α × σ} (hfg : ∀ s, f s = g s) :
    Agree (Twin Same) Eq (door f : Run τ σ α) (door g) := by
  have heq : f = g := funext hfg
  subst heq
  exact blind_door f

omit htyping in
theorem blind_select_target (targets : List Target) (part : Option Text) :
    Blind (Twin Same) (select_target targets part : Run τ σ Target) := by
  unfold select_target
  dsimp only
  split
  · exact Blind.raise _
  · exact Blind.raise _
  · exact Blind.pure _
  · exact Blind.raise _

theorem agree_fill (selector : Text) {v w : Text} (h : T v w) :
    Agree (Twin Same) Eq (fill doors selector v : Run τ σ ℤ) (fill doors selector w) := by
  unfold fill
  refine Agree.bind (blind_door _) fun focus focus' hfocus => ?_
  subst hfocus
  cases focus with
  | none => exact Agree.raise _
  | some focus =>
    refine agree_unless (agree_unless ?_)
    refine Agree.bind (agree_door fun s => htyping.insert_text v w s h) fun _ _ _ => ?_
    refine Agree.bind (blind_door _) fun length length' hlength => ?_
    subst hlength
    rw [(htyping.typable v w h).length]
    dsimp only
    split
    · exact Agree.raise _
    · split
      · exact Blind.bind (blind_logLine _) fun _ => Blind.pure _
      · exact Blind.pure _

theorem agree_verb_fill (h : Paired store store' Same Has Lacks V) (endpoint : Text) :
    Agree (Twin Same) Eq (verb_fill store doors endpoint args) (verb_fill store' doors endpoint args) := by
  unfold verb_fill
  refine (agree_existing h).bind fun secret secret' hsim => ?_
  refine Agree.bind (blind_required _) fun given given' hgiven => ?_
  subst hgiven
  refine (agree_checked _).bind fun field field' hfield => ?_
  obtain ⟨rfl, hfield⟩ := hfield
  refine Agree.bind (blind_required _) fun selector selector' hselector => ?_
  subst hselector
  refine (agree_typable htyping h hsim (validate_field_spec hfield).2).bind fun p q hpq => ?_
  obtain ⟨v, detail⟩ := p
  obtain ⟨w, detail'⟩ := q
  obtain ⟨htyped, hdetail⟩ := hpq
  obtain rfl : detail = detail' := hdetail
  obtain ⟨fields, rfl, -⟩ := hsim
  refine Agree.bind (blind_text _ _) fun cdp cdp' hcdp => ?_
  subst hcdp
  refine Agree.bind (blind_door _) fun targets targets' htargets => ?_
  subst htargets
  refine Agree.bind (blind_text _ _) fun part part' hpart => ?_
  subst hpart
  refine Agree.bind (blind_select_target _ _) fun target target' htarget => ?_
  subst htarget
  refine Agree.bind (blind_door _) fun _ _ _ => ?_
  have hfill : Agree (Twin Same) Eq
      (tryCatchThe Raised (fill doors selector v) fun e => do
        door doors.close_session
        throw e : Run τ σ ℤ)
      (tryCatchThe Raised (fill doors selector w) fun e => do
        door doors.close_session
        throw e) :=
    (agree_fill htyping selector htyped).handle fun e => Agree.bind (blind_door _) fun _ _ _ => Agree.raise e
  refine hfill.bind fun length length' hlength => ?_
  subst hlength
  exact Agree.bind (blind_door _) fun _ _ _ => Agree.pure rfl

theorem agree_type_value {v w : Text} (h : T v w) (password : Bool) :
    Agree (Twin Same) Eq (type_value doors v password : Run τ σ FocusedField) (type_value doors w password) := by
  have htypable := htyping.typable v w h
  unfold type_value
  rw [htypable.typable]
  by_cases hw : can_type w = true
  · rw [hw]
    dsimp only
    refine agree_unless (Agree.bind (blind_door _) fun before before' hbefore => ?_)
    subst hbefore
    cases before with
    | none => exact Agree.raise _
    | some before =>
      refine agree_unless ?_
      refine Agree.bind (agree_door fun s => htyping.type_text v w s h (htypable.typable.trans hw)) fun _ _ _ => ?_
      refine Agree.bind (blind_door _) fun after after' hafter => ?_
      subst hafter
      rw [htypable.length]
      cases after with
      | none => exact Agree.raise _
      | some after => exact agree_unless (agree_unless (Agree.pure rfl))
  · rw [Bool.not_eq_true] at hw
    rw [hw]
    exact (Agree.raise _ : Agree _ (fun _ _ => False) _ _).bind fun _ _ hno => hno.elim

theorem agree_verb_type (h : Paired store store' Same Has Lacks V) :
    Agree (Twin Same) Eq (verb_type store doors args) (verb_type store' doors args) := by
  unfold verb_type
  refine (agree_existing h).bind fun secret secret' hsim => ?_
  refine Agree.bind (blind_required _) fun given given' hgiven => ?_
  subst hgiven
  refine (agree_checked _).bind fun field field' hfield => ?_
  obtain ⟨rfl, hfield⟩ := hfield
  refine (agree_typable htyping h hsim (validate_field_spec hfield).2).bind fun p q hpq => ?_
  obtain ⟨v, detail⟩ := p
  obtain ⟨w, detail'⟩ := q
  obtain ⟨htyped, hdetail⟩ := hpq
  obtain rfl : detail = detail' := hdetail
  obtain ⟨fields, rfl, -⟩ := hsim
  refine Agree.bind (blind_text _ _) fun wanted wanted' hwanted => ?_
  subst hwanted
  refine Agree.bind (blind_door _) fun serial serial' hserial => ?_
  subst hserial
  refine (agree_type_value htyping htyped _).bind fun typed typed' htyped => ?_
  subst htyped
  exact Agree.pure rfl

end Typed

/-! ## `env` and `classify` -/

/-- Two environments with the same keys, whose values have `P`. -/
def Values (P : Text → Text → Text → Prop) : List (Text × Text) → List (Text × Text) → Prop :=
  List.Forall₂ fun a b => a.1 = b.1 ∧ P a.1 a.2 b.2

theorem values_setKey {P : Text → Text → Text → Prop} {var v w : Text} (h : P var v w) {l l' : List (Text × Text)} (hl : Values P l l') :
    Values P (setKey var v l) (setKey var w l') := by
  induction hl with
  | nil => exact .cons ⟨rfl, h⟩ .nil
  | @cons a b l l' hab hl ih =>
    obtain ⟨k, x⟩ := a
    obtain ⟨k', y⟩ := b
    obtain ⟨hk, hxy⟩ := hab
    obtain rfl : k = k' := hk
    unfold setKey
    split
    · rename_i hvar
      subst hvar
      exact .cons ⟨rfl, h⟩ hl
    · exact .cons ⟨rfl, hxy⟩ ih

theorem Values.eq {l l' : List (Text × Text)} (h : Values (fun _ => Eq) l l') : l = l' := by
  induction h with
  | nil => rfl
  | @cons a b l l' hab _ ih =>
    obtain ⟨k, x⟩ := a
    obtain ⟨k', y⟩ := b
    obtain ⟨hk, hxy⟩ := hab
    obtain rfl : k = k' := hk
    obtain rfl : x = y := hxy
    rw [ih]

section Env

variable (h : Paired store store' Same Has Lacks V) {P : Text → Text → Prop}
include h

theorem agree_tagValues (hP : ∀ v w, V (lit "password") v w → P v w) (tags : List Tag) :
    Agree (Twin (σ := σ) Same) (Values fun _ => P) (tagValues store tags) (tagValues store' tags) := by
  unfold tagValues
  split
  · exact Agree.pure .nil
  · refine (agree_matching h tags).bind fun matched matched' hmatched => ?_
    rw [(show matched.isEmpty = matched'.isEmpty by cases hmatched <;> rfl)]
    refine agree_unless ?_
    refine Agree.bind (P := fun (a b : List (Text × Text) × List (Text × Text)) => Values (fun _ => P) a.1 b.1 ∧ a.2 = b.2)
      (Agree.foldlM₂ (fun secret secret' hsim a b hab => ?_) hmatched ⟨.nil, rfl⟩) fun a b hab => Agree.pure hab.1
    have hsame := hsim
    obtain ⟨fields, rfl, -⟩ := hsame
    obtain ⟨values, owners⟩ := a
    obtain ⟨values', owners'⟩ := b
    obtain ⟨hvalues, howners⟩ := hab
    obtain rfl : owners = owners' := howners
    unfold fillTagged
    dsimp only
    cases secret.var with
    | none => exact Agree.raise _
    | some var =>
      dsimp only
      cases owners.lookup var with
      | some owner => exact Agree.raise _
      | none =>
        refine (agree_value h hsim (.inl (by decide))).bind fun v w hvw =>
          Agree.pure ⟨values_setKey ?_ hvalues, rfl⟩
        exact hP v w ((read_iff (by decide)).1 hvw)

/-- A binding that does not ask for a one-time password. -/
def AsksNoCode : Value → Prop
  | .dict binding => strOf (argument binding (lit "field")) ≠ some (lit "totp")
  | _ => True

omit h in
theorem agree_text (key : Text) (required : Bool) : Agree (Twin (σ := σ) Same)
    (fun a b => a = b ∧ a = strOf (argument args key)) (_text args key required) (_text args key required) := by
  unfold _text
  dsimp only
  split
  · rename_i hnone
    split
    · exact Agree.raise _
    · refine Agree.pure ⟨rfl, ?_⟩
      cases harg : argument args key with
      | none => rfl
      | _ =>
        rw [harg] at hnone
        cases hnone
  · split
    · rename_i s hs
      exact Agree.pure ⟨rfl, hs.symm⟩
    · exact Agree.raise _

omit h in
theorem fieldOr_totp {field : Option Text} (h : fieldOr field = lit "totp") : field = some (lit "totp") := by
  unfold fieldOr at h
  cases field with
  | none =>
    revert h
    decide
  | some f =>
    dsimp only at h
    split at h
    · exact absurd h (by decide)
    · rw [h]

theorem agree_binding (hP : ∀ v w, V (lit "password") v w → P v w) (hrefl : ∀ v, P v v) {binding : Value}
    (hcode : AsksNoCode binding ∨ ∀ v w, V (lit "totp") v w → P v w) {l l' : List (Text × Text)} (hl : Values (fun _ => P) l l') :
    Agree (Twin (σ := σ) Same) (Values fun _ => P) (bind store l binding) (bind store' l' binding) := by
  cases binding with
  | dict binding =>
    unfold bind
    refine Agree.bind (blind_required _) fun var var' hvar => ?_
    subst hvar
    refine Agree.bind (blind_checked _) fun var var' hvar => ?_
    subst hvar
    refine (agree_existing h).bind fun secret secret' hsim => ?_
    refine (agree_text _ _).bind fun given given' hgiven => ?_
    obtain ⟨rfl, hgiven⟩ := hgiven
    refine (agree_checked _).bind fun field field' hfield => ?_
    obtain ⟨rfl, hfield⟩ := hfield
    refine (agree_value h hsim (validate_field_spec hfield).2).bind fun v w hvw => Agree.pure (values_setKey ?_ hl)
    by_cases hmem : field ∈ VALUE_FIELDS
    · have hV := (read_iff hmem).1 hvw
      rcases List.mem_cons.1 hmem with rfl | hmem
      · exact hP v w hV
      · obtain rfl := List.mem_singleton.1 hmem
        refine (hcode.resolve_left fun hno => hno ?_) v w hV
        rw [← hgiven]
        exact fieldOr_totp (validate_field_spec hfield).1.symm
    · unfold Read at hvw
      rw [if_neg hmem] at hvw
      subst hvw
      exact hrefl v
  | _ => exact Agree.raise _

/-- **What `env` hands over is related as the values are.** -/
theorem agree_envValues (hP : ∀ v w, V (lit "password") v w → P v w) (hrefl : ∀ v, P v v)
    (hcode : (∀ bindings, argument args (lit "bindings") = .list bindings → ∀ b ∈ bindings, AsksNoCode b) ∨
      ∀ v w, V (lit "totp") v w → P v w) :
    Agree (Twin (σ := σ) Same) (Values fun _ => P) (envValues store args) (envValues store' args) := by
  unfold envValues
  refine Agree.bind (blind_tags _) fun tags tags' htags => ?_
  subst htags
  refine (agree_tagValues h hP tags).bind fun l l' hl => ?_
  have hrest : ∀ bindings : List Value, (∀ b ∈ bindings, AsksNoCode b ∨ ∀ v w, V (lit "totp") v w → P v w) →
      Agree (Twin (σ := σ) Same) (Values fun _ => P) (bindings.foldlM (bind store) l) (bindings.foldlM (bind store') l') :=
    fun bindings hb => Agree.foldlM (fun b hmem c d hcd => agree_binding h hP hrefl (hb b hmem) hcd) hl
  dsimp only
  split
  · cases hraw : argument args (lit "bindings") with
    | list bindings =>
      refine Agree.bind (P := fun bs bs' => bs = bindings ∧ bs' = bindings) (Agree.pure ⟨rfl, rfl⟩) fun bs bs' hbs => ?_
      obtain ⟨rfl, rfl⟩ := hbs
      exact hrest _ fun b hb => hcode.imp_left fun hno => hno _ hraw b hb
    | _ => exact (Agree.raise _ : Agree _ (fun _ _ => False) _ _).bind fun _ _ hno => hno.elim
  · exact hrest [] fun b hb => (List.not_mem_nil hb).elim

end Env

/-- Two lists that hold the same of the texts in `X`. -/
def Told (X : Text → Prop) (l l' : List Text) : Prop := ∀ x, X x → (x ∈ l ↔ x ∈ l')

theorem Told.flatten {X : Text → Prop} {l l' : List (List Text)} (h : List.Forall₂ (Told X) l l') :
    Told X l.flatten l'.flatten := by
  intro x hx
  induction h with
  | nil => exact Iff.rfl
  | cons hab _ ih => rw [List.flatten_cons, List.flatten_cons, List.mem_append, List.mem_append, hab x hx, ih]

/-- A value that a `classify` request supplies. -/
def Supplied (args : Entries) (x : Text) : Prop :=
  ∃ entries, argument args (lit "entries") = .list entries ∧ ∃ e, .dict e ∈ entries ∧ strOf (argument e (lit "value")) = some x

theorem agree_classifyPairs : Agree (Twin (σ := σ) Same)
    (fun l l' => l = l' ∧ ∀ pair ∈ l, pair.2 = [] ∨ Supplied args pair.2) (classifyPairs args) (classifyPairs args) := by
  unfold classifyPairs
  cases hraw : argument args (lit "entries") with
  | list entries =>
    have hpair : ∀ e ∈ entries, Agree (Twin (σ := σ) Same)
        (fun p q => p = q ∧ (p.2 = [] ∨ Supplied args p.2)) (pairOf e) (pairOf e) := by
      intro e he
      cases e with
      | dict e =>
        unfold pairOf
        refine Agree.bind (blind_required _) fun key key' hkey => ?_
        subst hkey
        refine (agree_text _ _).bind fun value value' hvalue => ?_
        obtain ⟨rfl, hvalue⟩ := hvalue
        refine Agree.pure ⟨rfl, ?_⟩
        cases value with
        | none => exact .inl rfl
        | some x => exact .inr ⟨entries, hraw, e, he, hvalue.symm⟩
      | _ => exact Agree.raise _
    refine (Agree.mapM hpair).mono fun l l' hl => ?_
    clear hpair
    induction hl with
    | nil => exact ⟨rfl, fun _ hmem => (List.not_mem_nil hmem).elim⟩
    | cons hab _ ih =>
      obtain ⟨rfl, hall⟩ := ih
      obtain ⟨rfl, hx⟩ := hab
      exact ⟨rfl, List.forall_mem_cons.2 ⟨hx, hall⟩⟩
  | _ => exact Agree.raise _

theorem verdict_told {X : Text → Prop} {held held' registered : List Text} (h : Told X held held') {pair : Text × Text}
    (hpair : pair.2 = [] ∨ X pair.2) : verdict held registered pair = verdict held' registered pair := by
  have hheld : (pair.2 ≠ [] && held.contains pair.2) = (pair.2 ≠ [] && held'.contains pair.2) := by
    rcases hpair with hnil | hx
    · simp [hnil]
    · have hiff := h pair.2 hx
      rw [← List.contains_iff_mem, ← List.contains_iff_mem] at hiff
      rw [Bool.eq_iff_iff.2 hiff]
  unfold verdict
  rw [hheld]

section Classify

variable (h : Paired store store' Same Has Lacks V) {X : Text → Prop}
include h

theorem agree_held_forms (hX : ∀ f ∈ VALUE_FIELDS, ∀ v w, V f v w → (v = [] ↔ w = []) ∧ Told X (forms v) (forms w)) :
    Agree (Twin (σ := σ) Same) (Told X) (_held_forms store) (_held_forms store') := by
  unfold _held_forms
  refine (agree_matching h []).bind fun secrets secrets' hsecrets => ?_
  have hfield : ∀ secret secret' : Secret, Similar secret secret' → ∀ field ∈ VALUE_FIELDS,
      Agree (Twin (σ := σ) Same) (Told X) (storedForms store secret field) (storedForms store' secret' field) := by
    intro secret secret' hsim field hmem
    obtain ⟨fields, rfl, -⟩ := hsim
    have hnamed : Named field := .inl (List.mem_cons_of_mem _ hmem)
    unfold storedForms
    refine (agree_onShelf (h.value _ _ hnamed)).bind fun a b hab => Agree.pure ?_
    cases hab with
    | none => exact fun _ _ => Iff.rfl
    | @some v w hread =>
      obtain ⟨hnil, htold⟩ := hX field hmem v w ((read_iff hmem).1 hread)
      rw [Option.getD_some, Option.getD_some]
      by_cases hv : v = []
      · rw [if_pos hv, if_pos (hnil.1 hv)]
        exact fun _ _ => Iff.rfl
      · rw [if_neg hv, if_neg fun hw => hv (hnil.2 hw)]
        exact htold
  refine (Agree.mapM₂ (fun secret secret' hsim => Agree.mapM (hfield secret secret' hsim)) hsecrets).bind
    fun held held' hheld => Agree.pure ?_
  exact Told.flatten (List.rel_flatten hheld)

/-- **`classify` tells of the stored values only which supplied value is among their forms.** -/
theorem agree_classify (hlen : ∀ f ∈ VALUE_FIELDS, ∀ v w, V f v w → v.length = w.length) :
    Agree (Twin (σ := σ) Same)
      (fun r r' => (∀ x, Supplied args x → ∀ f ∈ VALUE_FIELDS, ∀ v w, V f v w → (x ∈ forms v ↔ x ∈ forms w)) → r = r')
      (verb_classify store args) (verb_classify store' args) := by
  unfold verb_classify
  refine agree_classifyPairs.bind fun pairs pairs' hpairs => ?_
  obtain ⟨rfl, hsupplied⟩ := hpairs
  refine (agree_matching h []).bind fun secrets secrets' hsecrets => ?_
  have hvars : secrets.filterMap (·.var) = secrets'.filterMap (·.var) := by
    induction hsecrets with
    | nil => rfl
    | cons hab _ ih =>
      obtain ⟨fields, rfl, -⟩ := hab
      rw [List.filterMap_cons, List.filterMap_cons, ih]
  rw [hvars]
  -- what is asked of the forms decides what is known of them, whichever set of texts that is
  have hheld := agree_held_forms (σ := σ)
    (X := fun x => ∀ f ∈ VALUE_FIELDS, ∀ v w, V f v w → (x ∈ forms v ↔ x ∈ forms w)) h
    fun f hf v w hvw => by
      have hsame := hlen f hf v w hvw
      refine ⟨?_, fun x hx => hx f hf v w hvw⟩
      rw [← List.length_eq_zero_iff, ← List.length_eq_zero_iff, hsame]
  refine hheld.bind fun held held' hheld => Agree.pure fun hbits => ?_
  have hmap : pairs.map (verdict held ((secrets'.filterMap (·.var)).filter (· ≠ []))) =
      pairs.map (verdict held' ((secrets'.filterMap (·.var)).filter (· ≠ []))) :=
    List.map_congr_left fun pair hmem => verdict_told hheld ((hsupplied pair hmem).imp_right (hbits pair.2))
  rw [hmap]

end Classify

/-! ## The two stores -/

/-- The same account, and behind it values with `V`. -/
def Held (V : Text → Text → Text → Prop) (account v w : Text) : Prop :=
  ∀ name, ∀ field ∈ VALUE_FIELDS, account = accountOf name field → V field v w

/-- Two shelves that differ in nothing but stored values. -/
structure Under {ε : Type} (V : Text → Text → Text → Prop) (a b : Shelf ε) : Prop where
  secrets : a.secrets = b.secrets
  values : Values (Held V) a.values b.values
  env : a.env = b.env

section Shelves

variable {ε : Type} {B : Backend ε}

theorem Values.lookup {P : Text → Text → Text → Prop} {l l' : List (Text × Text)} (h : Values P l l') (key : Text) :
    Option.Rel (P key) (l.lookup key) (l'.lookup key) := by
  induction h with
  | nil => exact .none
  | @cons x y l l' hxy _ ih =>
    obtain ⟨k, v⟩ := x
    obtain ⟨k', w⟩ := y
    obtain ⟨hk, hvw⟩ := hxy
    obtain rfl : k = k' := hk
    rw [List.lookup_cons, List.lookup_cons]
    by_cases hkey : key = k
    · subst hkey
      rw [beq_self_eq_true]
      exact .some hvw
    · rw [beq_eq_false_iff_ne.2 hkey]
      exact ih

theorem Values.keys {P : Text → Text → Text → Prop} {l l' : List (Text × Text)} (h : Values P l l') :
    l.map Prod.fst = l'.map Prod.fst := by
  induction h with
  | nil => rfl
  | cons hxy _ ih => rw [List.map_cons, List.map_cons, hxy.1, ih]

theorem Values.filter {P : Text → Text → Text → Prop} {l l' : List (Text × Text)} (h : Values P l l') (account : Text) :
    Values P (l.filter fun kv => kv.1 ≠ account) (l'.filter fun kv => kv.1 ≠ account) := by
  induction h with
  | nil => exact .nil
  | @cons x y l l' hxy _ ih =>
    rw [List.filter_cons, List.filter_cons, ← hxy.1]
    split
    · exact .cons hxy ih
    · exact ih

theorem blind_consult (f : ε → Except Raised α × ε) : Blind (Under V) (consult f : Call (Shelf ε) α) := by
  intro a b hab
  have hleft : outcome (consult f : Call (Shelf ε) α) a = ((f a.env).1, { a with env := (f a.env).2 }) := rfl
  have hright : outcome (consult f : Call (Shelf ε) α) b = ((f b.env).1, { b with env := (f b.env).2 }) := rfl
  rw [hleft, hright, hab.env]
  refine ⟨?_, hab.secrets, hab.values, rfl⟩
  cases (f b.env).1 <;> rfl

theorem agree_contents : Agree (Under V) (Under V) (contents : Call (Shelf ε) (Shelf ε)) contents :=
  fun _ _ hab => ⟨hab, hab⟩

theorem blind_load : Blind (Under V) (load B) := by
  unfold load
  exact (blind_consult _).bind fun _ => agree_contents.bind fun a b hab => Agree.pure hab.secrets

theorem blind_save (change : List Secret → List Secret) : Blind (Under V) (save B change) := by
  unfold save
  refine blind_load.bind fun secrets => (blind_consult _).bind fun _ => Agree.modify fun a b hab => ?_
  exact ⟨rfl, hab.values, hab.env⟩

theorem agree_get_password (account : Text) :
    Agree (Under V) (Option.Rel (Held V account)) (get_password B account) (get_password B account) := by
  unfold get_password
  refine Agree.bind (blind_consult _) fun _ _ _ => agree_contents.bind fun a b hab => Agree.pure ?_
  exact hab.values.lookup account

theorem blind_set_password (hrefl : ∀ f v, V f v v) (account value : Text) :
    Blind (Under V) (set_password B account value) := by
  unfold set_password
  refine Blind.bind (blind_consult _) fun _ => Agree.modify fun a b hab => ⟨hab.secrets, ?_, hab.env⟩
  exact values_setKey (fun _ field _ _ => hrefl field value) hab.values

theorem blind_delete_password (account : Text) : Blind (Under V) (delete_password B account) := by
  unfold delete_password
  refine Blind.bind (blind_consult _) fun _ => Agree.modify fun a b hab => ⟨hab.secrets, ?_, hab.env⟩
  exact hab.values.filter account

theorem named_value {field : Text} (h : Named field) (huser : field ≠ lit "username")
    (hmeta : ¬META_PREFIX.isPrefixOf field = true) : field ∈ VALUE_FIELDS :=
  h.elim (fun hmem => (List.mem_cons.1 hmem).resolve_left huser) fun hprefix => (hmeta hprefix).elim

theorem read_rfl {field : Text} (h : field ∉ VALUE_FIELDS) (o : Option Text) : Option.Rel (Read V field) o o := by
  cases o with
  | none => exact .none
  | some v =>
    refine .some ?_
    unfold Read
    rw [if_neg h]

theorem meta_not_value {field : Text} (h : META_PREFIX.isPrefixOf field = true) : field ∉ VALUE_FIELDS := by
  intro hmem
  rcases List.mem_cons.1 hmem with rfl | hmem
  · exact absurd h (by decide)
  · obtain rfl := List.mem_singleton.1 hmem
    exact absurd h (by decide)

theorem blind_keyring_names : Blind (Under V) (KeyringStore.names B) := blind_load.bind fun _ => Blind.pure _

theorem blind_keyring_get (name : Text) : Blind (Under V) (KeyringStore.get B name) := blind_load.bind fun _ => Blind.pure _

theorem blind_keyring_record (name : Text) : Blind (Under V) (KeyringStore.record B name) := by
  unfold KeyringStore.record
  refine (blind_keyring_get name).bind fun found => ?_
  cases found with
  | some secret => exact Blind.pure secret
  | none => exact Blind.raise _

theorem blind_keyring_health : Blind (Under V) (KeyringStore.health B) := by
  unfold KeyringStore.health
  refine blind_keyring_names.bind fun names => ?_
  refine Blind.bind (Blind.foldlM (fun acc name => ?_) _) fun acc => ?_
  · refine (blind_keyring_get name).bind fun found => ?_
    cases found with
    | none => exact Blind.pure _
    | some record =>
      refine Blind.foldlM (fun acc field => ?_) _
      refine (agree_get_password _).bind fun a b hab => Agree.pure ?_
      cases hab <;> rfl
  · refine agree_contents.bind fun a b hab => ?_
    rw [hab.values.keys]
    exact (blind_consult _).bind fun held => Blind.pure _

theorem veiled_keyringStore (hrefl : ∀ f v, V f v v) : Veiled (keyringStore B) (Under V) V where
  health := blind_keyring_health
  names := blind_keyring_names
  get := blind_keyring_get
  create _ := blind_save _
  set_value name field value :=
    (blind_keyring_record name).bind fun _ => (blind_set_password hrefl _ _).bind fun _ => blind_save _
  unset_value name field := (blind_keyring_record name).bind fun _ => (blind_delete_password _).bind fun _ => blind_save _
  remove name := Blind.bind (Blind.forM fun field => blind_delete_password _) fun _ => blind_save _
  value name field hnamed := by
    show Agree _ _ (KeyringStore.value B name field) (KeyringStore.value B name field)
    unfold KeyringStore.value
    split
    · rename_i huser
      refine Agree.bind (blind_keyring_get name) fun s s' hs => Agree.pure ?_
      subst hs huser
      exact read_rfl (by decide) _
    · rename_i huser
      split
      · rename_i hmeta
        refine Agree.bind (blind_keyring_get name) fun s s' hs => Agree.pure ?_
        subst hs
        exact read_rfl (meta_not_value hmeta) _
      · rename_i hmeta
        have hmem := named_value hnamed huser hmeta
        refine (agree_get_password _).mono fun a b hab => Rel.mono hab fun v w hheld => ?_
        exact (read_iff hmem).2 (hheld name field hmem rfl)
  retag name tags := (blind_keyring_record name).bind fun _ => blind_save _
  set_metadata name metadata := (blind_keyring_record name).bind fun _ => blind_save _

/-- The values of one record: the same fields, with values that have `V`. -/
def Data (V : Text → Text → Text → Prop) : List (Text × Text) → List (Text × Text) → Prop :=
  List.Forall₂ fun x y => x.1 = y.1 ∧ (x.1 ∈ VALUE_FIELDS → V x.1 x.2 y.2)

theorem agree_data (name : Text) : Agree (Under V) (Data V) (VaultStore.data B name) (VaultStore.data B name) := by
  unfold VaultStore.data
  refine Agree.bind (blind_consult _) fun _ _ _ => agree_contents.bind fun a b hab => Agree.pure ?_
  refine Rel.filterMap fun field hmem => ?_
  exact Rel.map (hab.values.lookup (accountOf name field)) fun v w hheld => ⟨rfl, fun _ => hheld name field hmem rfl⟩

theorem Data.lookup {l l' : List (Text × Text)} (h : Data V l l') (field : Text) :
    Option.Rel (fun v w => field ∈ VALUE_FIELDS → V field v w) (l.lookup field) (l'.lookup field) :=
  Values.lookup (P := fun field v w => field ∈ VALUE_FIELDS → V field v w) h field

theorem Data.datum (hlen : ∀ f ∈ VALUE_FIELDS, ∀ v w, V f v w → v.length = w.length) {l l' : List (Text × Text)}
    (h : Data V l l') {field : Text} (hmem : field ∈ VALUE_FIELDS) :
    Option.Rel (V field) (datum l field) (datum l' field) := by
  have hrel : Option.Rel (V field) (l.lookup field) (l'.lookup field) := Rel.mono (h.lookup field) fun v w hvw => hvw hmem
  refine Rel.filter hrel fun v w hvw => ?_
  rw [decide_eq_decide, ne_eq, ne_eq, ← List.length_eq_zero_iff, ← List.length_eq_zero_iff, hlen field hmem v w hvw]

section Vault

variable (hlen : ∀ f ∈ VALUE_FIELDS, ∀ v w, V f v w → v.length = w.length)
include hlen

theorem blind_vault_get (name : Text) : Blind (Under V) (VaultStore.get B name) := by
  unfold VaultStore.get
  refine blind_load.bind fun secrets => ?_
  cases find secrets name with
  | none => exact Blind.pure none
  | some secret =>
    refine (agree_data name).bind fun a b hab => Agree.pure ?_
    have hfields : VALUE_FIELDS.filter (fun field => (datum a field).isSome) =
        VALUE_FIELDS.filter fun field => (datum b field).isSome := by
      refine List.filter_congr fun field hmem => ?_
      rw [Rel.isSome (hab.datum hlen hmem)]
    rw [hfields]

theorem blind_vault_record (name : Text) : Blind (Under V) (VaultStore.record B name) := by
  unfold VaultStore.record
  refine (blind_vault_get hlen name).bind fun found => ?_
  cases found with
  | some secret => exact Blind.pure secret
  | none => exact Blind.raise _

theorem veiled_vaultStore (hrefl : ∀ f v, V f v v) : Veiled (vaultStore B) (Under V) V where
  health := (blind_consult _).bind fun reachable => Blind.pure _
  names := blind_keyring_names
  get := blind_vault_get hlen
  create _ := blind_save _
  set_value name field value := Agree.bind (agree_data name) fun _ _ _ => blind_set_password hrefl _ _
  unset_value name field := by
    refine (agree_data name).bind fun a b hab => ?_
    rw [Rel.isSome (hab.lookup field)]
    exact Blind.ite (blind_delete_password _) (Blind.pure _)
  remove name := Blind.bind (Blind.forM fun field => blind_delete_password _) fun _ => blind_save _
  value name field hnamed := by
    show Agree _ _ (VaultStore.value B name field) (VaultStore.value B name field)
    unfold VaultStore.value
    split
    · rename_i huser
      refine Agree.bind (blind_vault_get hlen name) fun s s' hs => Agree.pure ?_
      subst hs huser
      exact read_rfl (by decide) _
    · rename_i huser
      split
      · rename_i hmeta
        refine Agree.bind (blind_vault_get hlen name) fun s s' hs => Agree.pure ?_
        subst hs
        exact read_rfl (meta_not_value hmeta) _
      · rename_i hmeta
        have hmem := named_value hnamed huser hmeta
        refine (agree_data name).bind fun a b hab => Agree.pure ?_
        exact Rel.mono (hab.datum hlen hmem) fun v w hvw => (read_iff hmem).2 hvw
  retag name tags := (blind_vault_record hlen name).bind fun _ => blind_save _
  set_metadata name metadata := (blind_vault_record hlen name).bind fun _ => blind_save _

end Vault

/-- **The keyring and Vault answer the same**, whatever of the values is left open. -/
theorem veiled_storeOf (hV : ∀ f v w, V f v w → Veil v w) (hrefl : ∀ f v, V f v v) (route : Route) :
    Veiled (storeOf B route) (Under V) V := by
  cases route with
  | keyring => exact veiled_keyringStore hrefl
  | vault => exact veiled_vaultStore (fun f _ v w h => (hV f v w h).length) hrefl

end Shelves

/-! ## Requests -/

/-- What the reply to a request may tell of the stored values. -/
structure Guarded (V : Text → Text → Text → Prop) (request : Request) (reply reply' : Reply) : Prop where
  /-- No error tells anything. -/
  error : reply.ok = reply'.ok ∧ reply.error = reply'.error
  others : request.verb ≠ lit "env" → request.verb ≠ lit "classify" → reply = reply'
  /-- Only which supplied value is among the forms of a stored one. -/
  classify : request.verb = lit "classify" →
    (∀ x, Supplied request.args x → ∀ f ∈ VALUE_FIELDS, ∀ v w, V f v w → (x ∈ forms v ↔ x ∈ forms w)) → reply = reply'
  /-- Only the passwords. -/
  env : request.verb = lit "env" → (∀ v w, V (lit "password") v w → v = w) → reply = reply'

/-- An `env` request none of whose bindings asks for a one-time password. -/
def NoCode (request : Request) : Prop :=
  request.verb = lit "env" → ∀ bindings, argument request.args (lit "bindings") = .list bindings → ∀ b ∈ bindings, AsksNoCode b

section Requests

variable {counter : Counter} {request : Request}

/-- The reply to a handler whose two runs agree. -/
theorem handle_of_agree {P : Entries → Entries → Prop} {handler handler' : Entries → Run τ σ Entries}
    (hlook : (handlers store doors counter).lookup request.verb = some handler)
    (hlook' : (handlers store' doors counter).lookup request.verb = some handler')
    (hagree : Agree (Twin Same) P (handler request.args) (handler' request.args)) {a b : Bag τ σ} (hab : Twin Same a b) :
    Twin Same (handle store doors counter request a).2 (handle store' doors counter request b).2 ∧
      (handle store doors counter request a).1.ok = (handle store' doors counter request b).1.ok ∧
      (handle store doors counter request a).1.error = (handle store' doors counter request b).1.error ∧
      ((∀ r r', P r r' → r = r') →
        (handle store doors counter request a).1 = (handle store' doors counter request b).1) := by
  obtain ⟨halike, htwin⟩ := hagree a b hab
  unfold handle
  rw [hlook, hlook']
  unfold outcome at halike htwin
  dsimp only
  revert halike htwin
  cases (handler request.args).run.run a with
  | mk r a' =>
    cases (handler' request.args).run.run b with
    | mk r' b' =>
      intro halike htwin
      have hlog : ∀ line : Option Text, Twin Same { a' with log := a'.log ++ line.toList } { b' with log := b'.log ++ line.toList } :=
        fun line => ⟨htwin.shelf, htwin.world, congrArg (· ++ line.toList) htwin.log⟩
      cases r with
      | ok result =>
        cases r' with
        | ok result' => exact ⟨hlog none, rfl, rfl, fun heq => by rw [heq result result' halike]⟩
        | error e => exact halike.elim
      | error e =>
        cases r' with
        | ok result' => exact halike.elim
        | error e' =>
          obtain rfl : e = e' := halike
          cases e with
          | request message => exact ⟨hlog none, rfl, rfl, fun _ => rfl⟩
          | refused message => exact ⟨hlog none, rfl, rfl, fun _ => rfl⟩
          | other type => exact ⟨hlog (some _), rfl, rfl, fun _ => rfl⟩

/-- Every handler but those of `env`, `classify` and `doctor` gives the same over two such stores. -/
theorem agree_handler {T : Text → Text → Prop} (h : Paired store store' Same Has Lacks V) (htyping : Typing doors V T)
    {handler : Entries → Run τ σ Entries} (hlook : (handlers store doors counter).lookup request.verb = some handler)
    (henv : request.verb ≠ lit "env") (hclassify : request.verb ≠ lit "classify") (hdoctor : request.verb ≠ lit "doctor") :
    ∃ handler', (handlers store' doors counter).lookup request.verb = some handler' ∧
      Agree (Twin Same) Eq (handler request.args) (handler' request.args) := by
  obtain ⟨before, after, heq, -⟩ := List.lookup_eq_some_iff.1 hlook
  have hmem : (request.verb, handler) ∈ handlers store doors counter := by
    rw [heq]
    exact List.mem_append_right before List.mem_cons_self
  unfold handlers at hmem
  simp only [List.mem_cons, Prod.mk.injEq, List.not_mem_nil, or_false] at hmem
  rcases hmem with ⟨hverb, rfl⟩ | ⟨hverb, rfl⟩ | ⟨hverb, rfl⟩ | ⟨hverb, rfl⟩ | ⟨hverb, rfl⟩ | ⟨hverb, rfl⟩ |
    ⟨hverb, rfl⟩ | ⟨hverb, rfl⟩ | ⟨hverb, rfl⟩ | ⟨hverb, rfl⟩ | ⟨hverb, rfl⟩ | ⟨hverb, rfl⟩ | ⟨hverb, rfl⟩ |
    ⟨hverb, rfl⟩ | ⟨hverb, rfl⟩ | ⟨hverb, rfl⟩
  · exact ⟨verb_ping doors, by rw [hverb]; rfl, Blind.pure _⟩
  · exact ⟨verb_list store', by rw [hverb]; rfl, agree_list h⟩
  · exact ⟨verb_tags store', by rw [hverb]; rfl, agree_verb_tags h⟩
  · exact ⟨verb_create store', by rw [hverb]; rfl, agree_create h⟩
  · exact ⟨verb_set store', by rw [hverb]; rfl, agree_set h⟩
  · exact ⟨verb_unset store', by rw [hverb]; rfl, agree_unset h⟩
  · exact ⟨verb_remove store', by rw [hverb]; rfl, agree_remove h⟩
  · exact ⟨verb_tag store', by rw [hverb]; rfl, agree_tag h⟩
  · exact ⟨verb_untag store', by rw [hverb]; rfl, agree_untag h⟩
  · exact ⟨verb_meta store', by rw [hverb]; rfl, agree_meta h⟩
  · exact ⟨verb_unmeta store', by rw [hverb]; rfl, agree_unmeta h⟩
  · exact ⟨verb_fill store' doors counter.browser_endpoint, by rw [hverb]; rfl, agree_verb_fill htyping h _⟩
  · exact ⟨verb_type store' doors, by rw [hverb]; rfl, agree_verb_type htyping h⟩
  · exact absurd hverb henv
  · exact absurd hverb hclassify
  · exact absurd hverb hdoctor

variable (h : Veiled store Same V) (hV : ∀ f v w, V f v w → Veil v w) (hrefl : ∀ f v, V f v v) (hdoors : doors.Same)
include h hV hdoors hrefl

variable (counter)

/-- **One request**: the twins stay twins, and the reply tells what it may. -/
theorem handle_twin (hcode : NoCode request) {a b : Bag τ σ} (hab : Twin Same a b) :
    Twin Same (handle store doors counter request a).2 (handle store doors counter request b).2 ∧
      Guarded V request (handle store doors counter request a).1 (handle store doors counter request b).1 := by
  cases hlook : (handlers store doors counter).lookup request.verb with
  | none =>
    unfold handle
    rw [hlook]
    exact ⟨hab, ⟨rfl, rfl⟩, fun _ _ => rfl, fun _ _ => rfl, fun _ _ => rfl⟩
  | some handler =>
    by_cases henv : request.verb = lit "env"
    · obtain rfl : verb_env store = handler := by
        rw [henv] at hlook
        exact Option.some.inj hlook
      have hne : lit "env" ≠ lit "classify" := by decide
      -- the values as `V` relates the passwords; no other field is left open
      have hagree : ∀ P : Text → Text → Prop, (∀ v w, V (lit "password") v w → P v w) → (∀ v, P v v) →
          Agree (Twin (σ := σ) Same) (fun r r' => (∀ v w, P v w → v = w) → r = r')
            (verb_env store request.args) (verb_env store request.args) := by
        intro P hP hPrefl
        refine (agree_envValues h.paired hP hPrefl (.inl (hcode henv))).bind fun l l' hl => Agree.pure fun heq => ?_
        have hl' : l = l' := Values.eq (hl.imp fun x y hxy => ⟨hxy.1, heq _ _ hxy.2⟩)
        rw [hl']
      obtain ⟨htwin, hok, herror, heq⟩ := handle_of_agree hlook hlook
        (hagree (V (lit "password")) (fun _ _ hvw => hvw) (hrefl _)) hab
      refine ⟨htwin, ⟨hok, herror⟩, fun hno => (hno henv).elim, fun hclassify => ?_, fun _ hpass => ?_⟩
      · exact (hne (henv.symm.trans hclassify)).elim
      · exact heq fun r r' hr => hr hpass
    · by_cases hclassify : request.verb = lit "classify"
      · obtain rfl : verb_classify store = handler := by
          rw [hclassify] at hlook
          exact Option.some.inj hlook
        obtain ⟨htwin, hok, herror, heq⟩ := handle_of_agree hlook hlook
          (agree_classify h.paired fun f _ v w hvw => (hV f v w hvw).length) hab
        refine ⟨htwin, ⟨hok, herror⟩, fun _ hno => (hno hclassify).elim, fun _ hbits => ?_, fun hno => (henv hno).elim⟩
        exact heq fun r r' hr => hr hbits
      · have hblind : Blind (Twin Same) (handler request.args) := by
          by_cases hdoctor : request.verb = lit "doctor"
          · obtain rfl : verb_doctor store doors counter = handler := by
              rw [hdoctor] at hlook
              exact Option.some.inj hlook
            exact blind_doctor h counter
          · obtain ⟨handler', hlook', hagree⟩ := agree_handler h.paired (typing_veil hV hdoors) hlook henv hclassify hdoctor
            obtain rfl := Option.some.inj (hlook.symm.trans hlook')
            exact hagree
        obtain ⟨htwin, hok, herror, heq⟩ := handle_of_agree hlook hlook hblind hab
        refine ⟨htwin, ⟨hok, herror⟩, fun _ _ => heq fun _ _ hr => hr, fun hno => (hclassify hno).elim, fun hno => ?_⟩
        exact (henv hno).elim

/-- Any run of requests. -/
theorem serve_twin : ∀ {requests : List Request}, (∀ request ∈ requests, NoCode request) → ∀ {a b : Bag τ σ}, Twin Same a b →
    List.Forall₂ (fun request replies => Guarded V request replies.1 replies.2) requests
        ((serve store doors counter requests a).1.zip (serve store doors counter requests b).1) ∧
      Twin Same (serve store doors counter requests a).2 (serve store doors counter requests b).2 := by
  intro requests
  induction requests with
  | nil => exact fun _ _ _ hab => ⟨.nil, hab⟩
  | cons request requests ih =>
    intro hcode a b hab
    obtain ⟨hhead, htail⟩ := List.forall_mem_cons.1 hcode
    obtain ⟨htwin, hguarded⟩ := handle_twin counter h hV hrefl hdoors hhead hab
    obtain ⟨hrest, hlast⟩ := ih htail htwin
    exact ⟨.cons hguarded hrest, hlast⟩

end Requests

/-- **No reply leaks what the store holds**: over any requests of which none asks `env` for a one-time
password, each reply tells of the values no more than it may, and the log tells nothing. -/
theorem replies_guarded {ε : Type} (B : Backend ε) (route : Route) (doors : Doors σ) (counter : Counter)
    (hV : ∀ f v w, V f v w → Veil v w) (hrefl : ∀ f v, V f v v) (hdoors : doors.Same) {requests : List Request}
    (hcode : ∀ request ∈ requests, NoCode request) {a b : Bag (Shelf ε) σ} (hab : Twin (Under V) a b) :
    List.Forall₂ (fun request replies => Guarded V request replies.1 replies.2) requests
        ((serve (storeOf B route) doors counter requests a).1.zip (serve (storeOf B route) doors counter requests b).1) ∧
      (serve (storeOf B route) doors counter requests a).2.log = (serve (storeOf B route) doors counter requests b).2.log := by
  obtain ⟨hguarded, htwin⟩ := serve_twin counter (veiled_storeOf hV hrefl route) hV hrefl hdoors hcode hab
  exact ⟨hguarded, htwin.log⟩

/-! ## A shelf with one secret -/

def quietBackend : Backend Unit where
  catalogue _ s := (.ok (), s)
  account _ _ s := (.ok (), s)
  accounts held s := (.ok (some held), s)
  interpreter := none
  authenticated s := (.ok true, s)

def quietDoors : Doors Unit where
  version := lit "1"
  vault_token_file := false
  list_targets _ s := (.ok [], s)
  open_session _ s := (.ok (), s)
  focus _ s := (.ok none, s)
  insert_text _ s := (.ok (), s)
  read_length _ s := (.ok none, s)
  close_session s := (.ok (), s)
  connect _ s := (.ok [], s)
  focused_field s := (.ok none, s)
  type_text _ s := (.ok (), s)
  time s := (0, s)
  sleep _ s := s
  hmac _ _ := []

def quietCounter : Counter := ⟨lit "http://127.0.0.1:9222", lit "socket", none⟩

/-- The secret `bank` with one value, kept in the keyring. -/
def bankBag (field value : Text) : Bag (Shelf Unit) Unit where
  shelf := ⟨[{ name := lit "bank", var := some (lit "BANK"), fields := [field] }], [(accountOf (lit "bank") field, value)], ()⟩
  world := ()
  log := []

theorem accountOf_inj {name name' field field' : Text} (h : accountOf name field = accountOf name' field')
    (hf : field ∈ VALUE_FIELDS) (hf' : field' ∈ VALUE_FIELDS) : field = field' := by
  have hlast := congrArg (fun t => t.getLast?) h
  simp only [VALUE_FIELDS, List.mem_cons, List.not_mem_nil, or_false] at hf hf'
  rcases hf with rfl | rfl <;> rcases hf' with rfl | rfl
  · rfl
  · simp [accountOf, lit, List.getLast?_append] at hlast
  · simp [accountOf, lit, List.getLast?_append] at hlast
  · rfl

theorem twin_bankBag {V : Text → Text → Text → Prop} {field v w : Text} (hf : field ∈ VALUE_FIELDS) (h : V field v w) :
    Twin (Under V) (bankBag field v) (bankBag field w) where
  shelf := by
    refine ⟨rfl, .cons ⟨rfl, fun name field' hf' heq => ?_⟩ .nil, rfl⟩
    rw [← accountOf_inj heq hf hf']
    exact h
  world := rfl
  log := rfl

def envRequest : Request := ⟨lit "env", [entry "bindings" (.list [.dict [entry "var" (str (lit "BANK")), entry "name" (str (lit "bank"))]])]⟩

theorem replies_guarded_bank :
    List.Forall₂ (fun request replies => Guarded (fun _ => Veil) request replies.1 replies.2) [⟨lit "doctor", []⟩, envRequest]
        ((serve (storeOf quietBackend .keyring) quietDoors quietCounter [⟨lit "doctor", []⟩, envRequest]
            (bankBag (lit "password") (lit "correct-horse"))).1.zip
          (serve (storeOf quietBackend .keyring) quietDoors quietCounter [⟨lit "doctor", []⟩, envRequest]
            (bankBag (lit "password") (lit "staple-batter"))).1) ∧
      (serve (storeOf quietBackend .keyring) quietDoors quietCounter [⟨lit "doctor", []⟩, envRequest]
          (bankBag (lit "password") (lit "correct-horse"))).2.log =
        (serve (storeOf quietBackend .keyring) quietDoors quietCounter [⟨lit "doctor", []⟩, envRequest]
          (bankBag (lit "password") (lit "staple-batter"))).2.log := by
  refine replies_guarded (V := fun _ => Veil) quietBackend .keyring quietDoors quietCounter (fun _ _ _ h => h)
    (fun _ _ => ⟨rfl, rfl, rfl⟩) ⟨fun _ _ _ _ => rfl, fun _ _ _ _ _ _ => rfl⟩ ?_
    (twin_bankBag (by decide) ⟨by decide, by decide, by decide⟩)
  intro request hmem henv bindings hbindings b hb
  rcases List.mem_cons.1 hmem with rfl | hmem
  · exact absurd henv (by decide)
  · obtain rfl := List.mem_singleton.1 hmem
    have hlist : argument envRequest.args (lit "bindings") =
        .list [.dict [entry "var" (str (lit "BANK")), entry "name" (str (lit "bank"))]] := rfl
    rw [hlist] at hbindings
    obtain rfl := Value.list.inj hbindings
    obtain rfl := List.mem_singleton.1 hb
    show strOf _ ≠ _
    decide

/-- Two values that give one code at every time, and are equal where they are passwords. -/
structure SameCode (field v w : Text) : Prop where
  veil : Veil v w
  code : decode_seed v = decode_seed w
  password : field = lit "password" → v = w

def seedRequest : Request :=
  ⟨lit "env", [entry "bindings" (.list [.dict [entry "var" (str (lit "CODE")), entry "name" (str (lit "bank")),
    entry "field" (str (lit "totp"))]])]⟩

/-- **A binding of a one-time password is filled with the stored seed**, which two stores with the same
codes tell apart. -/
theorem env_tells_seed :
    Twin (Under SameCode) (bankBag (lit "totp") (lit "JBSWY3DPEHPK3PXP")) (bankBag (lit "totp") (lit "jbswy3dpehpk3pxp")) ∧
      (handle (storeOf quietBackend .keyring) quietDoors quietCounter seedRequest
        (bankBag (lit "totp") (lit "JBSWY3DPEHPK3PXP"))).1.result =
          [entry "values" (stringDict [(lit "CODE", lit "JBSWY3DPEHPK3PXP")])] ∧
      (handle (storeOf quietBackend .keyring) quietDoors quietCounter seedRequest
          (bankBag (lit "totp") (lit "JBSWY3DPEHPK3PXP"))).1 ≠
        (handle (storeOf quietBackend .keyring) quietDoors quietCounter seedRequest
          (bankBag (lit "totp") (lit "jbswy3dpehpk3pxp"))).1 := by
  have hupper : (handle (storeOf quietBackend .keyring) quietDoors quietCounter seedRequest
      (bankBag (lit "totp") (lit "JBSWY3DPEHPK3PXP"))).1.result =
        [entry "values" (stringDict [(lit "CODE", lit "JBSWY3DPEHPK3PXP")])] := rfl
  have hlower : (handle (storeOf quietBackend .keyring) quietDoors quietCounter seedRequest
      (bankBag (lit "totp") (lit "jbswy3dpehpk3pxp"))).1.result =
        [entry "values" (stringDict [(lit "CODE", lit "jbswy3dpehpk3pxp")])] := rfl
  have hcode : decode_seed (lit "JBSWY3DPEHPK3PXP") = decode_seed (lit "jbswy3dpehpk3pxp") := by
    decide
  refine ⟨twin_bankBag (by decide) ⟨⟨by decide, by decide, by rw [hcode]⟩, hcode, fun hno => absurd hno (by decide)⟩, hupper,
    fun heq => ?_⟩
  have hresult := congrArg Reply.result heq
  rw [hupper, hlower] at hresult
  simp [entry, stringDict, lit] at hresult

end Stablemate.Saddlebag
