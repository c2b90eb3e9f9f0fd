import Stablemate.Lib.Lists
import Stablemate.Proof.Verbs

/-!
# The keyring and Vault hold the same secrets

* `SameSecrets`: a keyring shelf and a Vault shelf with the same records and the same values;
  `paired_stores`: each operation keeps it, one after another and without a refusal.
* `replies_same`: any requests get the same replies from both, but for what `doctor` says.
* `health_reports`: what `health` says of any state in which nothing else happens meanwhile.
-/

namespace Stablemate.Saddlebag

open PyJson (Entries)
open TwoRun (Agree AgreeFrom Alike outcome outcome_bind)

/-- What keeps the secrets refuses nothing. -/
structure Obliging {ε : Type} (B : Backend ε) : Prop where
  catalogue : ∀ op e, (B.catalogue op e).1 = .ok ()
  account : ∀ op account e, (B.account op account e).1 = .ok ()

/-! ## Records and values -/

section Lookup

variable {name : Text} {secrets : List Secret} {key k v : Text} {l : List (Text × Text)}

theorem find_put (s : Secret) : find (put secrets s) name = if name = s.name then some s else find secrets name := by
  unfold find put
  rw [List.find?_append, List.find?_filter]
  by_cases h : name = s.name
  · rw [if_pos h, List.find?_eq_none.2 (by simp [h])]
    simp [h]
  · have hne : ¬ s.name = name := fun heq => h heq.symm
    have hcongr : ∀ t : Secret, decide (decide (t.name ≠ s.name) = true ∧ decide (t.name = name) = true) =
        decide (t.name = name) := by
      intro t
      by_cases ht : t.name = name
      · simp [ht, h]
      · simp [ht]
    rw [if_neg h, funext hcongr]
    simp [hne]

theorem find_drop (other : Text) : find (drop secrets other) name = if name = other then none else find secrets name := by
  unfold find drop
  rw [List.find?_filter]
  by_cases h : name = other
  · rw [if_pos h, List.find?_eq_none.2 (by simp [h])]
  · rw [if_neg h]
    congr 1
    funext t
    by_cases ht : t.name = name
    · simp [ht, h]
    · simp [ht]

theorem lookup_setKey : (setKey key v l).lookup k = if k = key then some v else l.lookup k := by
  induction l with
  | nil =>
    unfold setKey
    rw [List.lookup_cons]
    by_cases h : k = key
    · rw [if_pos h, h, beq_self_eq_true]
    · rw [if_neg h, beq_eq_false_iff_ne.2 h]
  | cons kv l ih =>
    obtain ⟨k', w⟩ := kv
    unfold setKey
    split
    · next heq =>
      rw [List.lookup_cons, List.lookup_cons, heq]
      by_cases h : k = key
      · rw [if_pos h, h, beq_self_eq_true]
      · rw [if_neg h, beq_eq_false_iff_ne.2 h]
    · next hne =>
      rw [List.lookup_cons, List.lookup_cons, ih]
      by_cases h : k = k'
      · simp only [h, beq_self_eq_true, if_neg hne]
      · rw [beq_eq_false_iff_ne.2 h]

theorem lookup_without : (l.filter fun kv => kv.1 ≠ key).lookup k = if k = key then none else l.lookup k := by
  have h := lookup_filter_key (fun k' => decide (k' ≠ key)) k l
  rw [h]
  by_cases hk : k = key <;> simp [hk]

/-- What is found where every key has its own value, if it has one. -/
theorem lookup_filterMap_key (g : Text → Option Text) (fields : List Text) :
    (fields.filterMap fun field => (g field).map fun value => (field, value)).lookup k =
      if k ∈ fields then g k else none := by
  induction fields with
  | nil => rfl
  | cons field fields ih =>
    rw [List.filterMap_cons]
    by_cases h : k = field
    · subst h
      cases hg : g k with
      | none => simp [hg, ih]
      | some v => simp
    · cases hg : g field with
      | none => simp [h, ih]
      | some v => simp [List.lookup_cons, beq_eq_false_iff_ne.2 h, h, ih]

theorem mem_setKey {item : Text × Text} (h : item ∈ setKey key v l) : item ∈ l ∨ item = (key, v) := by
  induction l with
  | nil => exact .inr (List.mem_singleton.1 h)
  | cons kv items ih =>
    obtain ⟨k, w⟩ := kv
    unfold setKey at h
    split at h
    · next heq =>
      rcases List.mem_cons.1 h with rfl | h
      · exact .inr (by rw [heq])
      · exact .inl (List.mem_cons_of_mem _ h)
    · rcases List.mem_cons.1 h with rfl | h
      · exact .inl List.mem_cons_self
      · exact (ih h).imp (List.mem_cons_of_mem _) id

theorem accountOf_eq {name' field field' : Text} (hf : field ∈ VALUE_FIELDS) (hf' : field' ∈ VALUE_FIELDS) :
    accountOf name field = accountOf name' field' ↔ name = name' ∧ field = field' := by
  constructor
  · intro h
    obtain rfl := accountOf_inj h hf hf'
    unfold accountOf at h
    rw [List.append_assoc, List.append_assoc] at h
    exact ⟨List.append_cancel_right h, rfl⟩
  · rintro ⟨rfl, rfl⟩
    rfl

/-- The fields of a name that have a value. -/
def heldFields (values : List (Text × Text)) (name : Text) : List Text :=
  VALUE_FIELDS.filter fun field => (values.lookup (accountOf name field)).isSome

theorem mem_heldFields {field : Text} : field ∈ heldFields l name ↔ field ∈ VALUE_FIELDS ∧
    (l.lookup (accountOf name field)).isSome = true := List.mem_filter

theorem nodup_heldFields : (heldFields l name).Nodup := List.Nodup.filter _ (by decide)

theorem nodup_put {s : Secret} (h : (secrets.map Secret.name).Nodup) : ((put secrets s).map Secret.name).Nodup := by
  unfold put
  rw [List.map_append, List.nodup_append]
  refine ⟨(List.filter_sublist.map _).nodup h, by simp, fun a ha b hb => ?_⟩
  obtain ⟨t, ht, rfl⟩ := List.mem_map.1 ha
  obtain rfl := List.mem_singleton.1 hb
  exact of_decide_eq_true (List.mem_filter.1 ht).2

theorem mem_names : name ∈ secrets.map Secret.name ↔ (find secrets name).isSome = true := by
  unfold find
  rw [List.find?_isSome, List.mem_map]
  simp

end Lookup

/-! ## What a call does -/

section Calls

variable {ε α β : Type} {B : Backend ε}

/-- The call returns `a` and leaves these records and values. -/
def Does (m : Call (Shelf ε) α) (s : Shelf ε) (a : α) (secrets : List Secret) (values : List (Text × Text)) : Prop :=
  ∃ e, outcome m s = (.ok a, ⟨secrets, values, e⟩)

variable {s : Shelf ε} {a : α} {secrets secrets' : List Secret} {values values' : List (Text × Text)}

theorem Does.bind {m : Call (Shelf ε) α} {f : α → Call (Shelf ε) β} {b : β} (h : Does m s a secrets values)
    (hf : ∀ e, Does (f a) ⟨secrets, values, e⟩ b secrets' values') : Does (m >>= f) s b secrets' values' := by
  obtain ⟨e, he⟩ := h
  obtain ⟨e', he'⟩ := hf e
  refine ⟨e', ?_⟩
  rw [outcome_bind, he]
  exact he'

/-- A call that changes nothing, before another. -/
theorem Does.read {m : Call (Shelf ε) α} {f : α → Call (Shelf ε) β} {b : β} (a : α) (h : Does m s a s.secrets s.values)
    (hf : ∀ e, Does (f a) ⟨s.secrets, s.values, e⟩ b secrets' values') : Does (m >>= f) s b secrets' values' := h.bind hf

theorem Does.pure (a : α) (s : Shelf ε) : Does (Pure.pure a) s a s.secrets s.values := ⟨s.env, rfl⟩

theorem Does.map {m : Call (Shelf ε) α} (h : Does m s a secrets values) (f : α → β) :
    Does (m >>= fun x => Pure.pure (f x)) s (f a) secrets values := h.bind fun e => Does.pure (f a) ⟨secrets, values, e⟩

theorem does_consult {f : ε → Except Raised α × ε} (h : (f s.env).1 = .ok a) :
    Does (consult f) s a s.secrets s.values := by
  refine ⟨(f s.env).2, ?_⟩
  have hrun : outcome (consult f : Call (Shelf ε) α) s = ((f s.env).1, { s with env := (f s.env).2 }) := rfl
  rw [hrun, h]

theorem does_contents (s : Shelf ε) : Does contents s s s.secrets s.values := ⟨s.env, rfl⟩

theorem does_modify (f : Shelf ε → Shelf ε) : Does (modify f : Call (Shelf ε) Unit) s () (f s).secrets (f s).values :=
  ⟨(f s).env, rfl⟩

variable (hB : Obliging B)
include hB

theorem does_load (s : Shelf ε) : Does (load B) s s.secrets s.secrets s.values := by
  unfold load
  refine (does_consult (hB.catalogue _ _)).bind fun e => (does_contents _).bind fun e' => ?_
  exact Does.pure s.secrets _

theorem does_save (change : List Secret → List Secret) (s : Shelf ε) :
    Does (save B change) s () (change s.secrets) s.values := by
  unfold save
  refine (does_load hB s).bind fun e => (does_consult (hB.catalogue _ _)).bind fun e' => ?_
  exact does_modify _

theorem does_get_password (account : Text) (s : Shelf ε) :
    Does (get_password B account) s (s.values.lookup account) s.secrets s.values := by
  unfold get_password
  refine (does_consult (hB.account _ _ _)).bind fun e => (does_contents _).bind fun e' => ?_
  exact Does.pure (s.values.lookup account) _

theorem does_set_password (account v : Text) (s : Shelf ε) :
    Does (set_password B account v) s () s.secrets (setKey account v s.values) := by
  unfold set_password
  exact (does_consult (hB.account _ _ _)).bind fun e => does_modify _

theorem does_delete_password (account : Text) (s : Shelf ε) :
    Does (delete_password B account) s () s.secrets (s.values.filter fun kv => kv.1 ≠ account) := by
  unfold delete_password
  exact (does_consult (hB.account _ _ _)).bind fun e => does_modify _

theorem does_names (s : Shelf ε) :
    Does (KeyringStore.names B) s (sortedTexts (s.secrets.map Secret.name)) s.secrets s.values := by
  unfold KeyringStore.names
  exact (does_load hB s).bind fun e => Does.pure _ _

theorem does_get (name : Text) (s : Shelf ε) : Does (KeyringStore.get B name) s (find s.secrets name) s.secrets s.values := by
  unfold KeyringStore.get
  exact (does_load hB s).bind fun e => Does.pure _ _

theorem does_record {name : Text} {secret : Secret} (h : find s.secrets name = some secret) :
    Does (KeyringStore.record B name) s secret s.secrets s.values := by
  unfold KeyringStore.record
  refine (does_get hB name s).bind fun e => ?_
  rw [h]
  exact Does.pure secret _

/-- The two deletions of `remove`. -/
def withoutName (values : List (Text × Text)) (name : Text) : List (Text × Text) :=
  (values.filter fun kv => kv.1 ≠ accountOf name (lit "password")).filter fun kv => kv.1 ≠ accountOf name (lit "totp")

theorem does_delete_all (name : Text) (s : Shelf ε) :
    Does (VALUE_FIELDS.forM fun field => delete_password B (accountOf name field)) s ⟨⟩ s.secrets (withoutName s.values name) := by
  have hall : (VALUE_FIELDS.forM fun field => delete_password B (accountOf name field)) =
      delete_password B (accountOf name (lit "password")) >>= fun _ =>
        delete_password B (accountOf name (lit "totp")) >>= fun _ => pure ⟨⟩ := rfl
  rw [hall]
  refine (does_delete_password hB _ s).bind fun e => (does_delete_password hB _ _).bind fun e' => ?_
  exact Does.pure _ _

/-! ## Vault -/

/-- The data of a name, field by field. -/
def dataOf (values : List (Text × Text)) (name : Text) : List (Text × Text) :=
  VALUE_FIELDS.filterMap fun field => (values.lookup (accountOf name field)).map fun value => (field, value)

theorem does_data (name : Text) (s : Shelf ε) : Does (VaultStore.data B name) s (dataOf s.values name) s.secrets s.values := by
  unfold VaultStore.data
  refine (does_consult (hB.account _ _ _)).bind fun e => (does_contents _).bind fun e' => ?_
  exact Does.pure (dataOf s.values name) _

omit hB in
theorem lookup_dataOf {name field : Text} (hfield : field ∈ VALUE_FIELDS) :
    (dataOf values name).lookup field = values.lookup (accountOf name field) := by
  unfold dataOf
  rw [lookup_filterMap_key, if_pos hfield]

omit hB in
/-- No value is empty. -/
theorem datum_dataOf {name field : Text} (hfull : ∀ kv ∈ values, kv.2 ≠ []) (hfield : field ∈ VALUE_FIELDS) :
    datum (dataOf values name) field = values.lookup (accountOf name field) := by
  unfold datum
  rw [lookup_dataOf hfield]
  cases hv : values.lookup (accountOf name field) with
  | none => rfl
  | some v =>
    obtain ⟨before, after, hsplit, -⟩ := List.lookup_eq_some_iff.1 hv
    have hne : v ≠ [] := hfull _ (hsplit ▸ List.mem_append_right _ List.mem_cons_self)
    simp [hne]

theorem does_vault_get (name : Text) (hfull : ∀ kv ∈ s.values, kv.2 ≠ []) :
    Does (VaultStore.get B name) s ((find s.secrets name).map fun secret => { secret with fields := heldFields s.values name })
      s.secrets s.values := by
  unfold VaultStore.get
  refine (does_load hB s).bind fun e => ?_
  cases find s.secrets name with
  | none => exact Does.pure none _
  | some secret =>
    refine (does_data hB name _).bind fun e' => ?_
    have hfields : (VALUE_FIELDS.filter fun field => (datum (dataOf s.values name) field).isSome) = heldFields s.values name := by
      unfold heldFields
      exact List.filter_congr fun field hfield => by rw [datum_dataOf hfull hfield]
    rw [hfields]
    exact Does.pure (some { secret with fields := heldFields s.values name }) _

theorem does_vault_record {name : Text} {secret : Secret} (hfull : ∀ kv ∈ s.values, kv.2 ≠ [])
    (h : find s.secrets name = some secret) :
    Does (VaultStore.record B name) s { secret with fields := heldFields s.values name } s.secrets s.values := by
  unfold VaultStore.record
  refine (does_vault_get hB _ hfull).bind fun e => ?_
  rw [h]
  exact Does.pure _ _

end Calls

/-! ## The two shelves -/

/-- The two records of one secret; the keyring's names the fields that have a value. -/
structure Record (values : List (Text × Text)) (a b : Secret) : Prop where
  rest : ∃ fields, b = { a with fields }
  fields : a.fields.Perm (heldFields values a.name)

/-- **A keyring shelf and a Vault shelf that hold the same secrets.** -/
structure SameSecrets {ε : Type} (k v : Shelf ε) : Prop where
  values : k.values = v.values
  full : ∀ kv ∈ k.values, kv.2 ≠ []
  owned : ∀ name, ∀ field ∈ VALUE_FIELDS, (k.values.lookup (accountOf name field)).isSome = true →
    (find k.secrets name).isSome = true
  nodup : (k.secrets.map Secret.name).Nodup
  nodup' : (v.secrets.map Secret.name).Nodup
  records : ∀ name, Option.Rel (Record k.values) (find k.secrets name) (find v.secrets name)

section Pair

variable {ε α β : Type} {k v : Shelf ε} {name field : Text} {values : List (Text × Text)}

theorem find_eq_some {secrets : List Secret} {secret : Secret} (h : find secrets name = some secret) :
    secret ∈ secrets ∧ secret.name = name := by
  unfold find at h
  have hname := List.find?_some h
  exact ⟨List.mem_of_find?_eq_some h, of_decide_eq_true hname⟩

/-- The values of another name leave a record as it is. -/
theorem Record.congr {values' : List (Text × Text)} {a b : Secret} (h : Record values a b)
    (hsame : ∀ field ∈ VALUE_FIELDS, values'.lookup (accountOf a.name field) = values.lookup (accountOf a.name field)) :
    Record values' a b := by
  refine ⟨h.rest, h.fields.trans ?_⟩
  have heq : heldFields values a.name = heldFields values' a.name := by
    unfold heldFields
    exact List.filter_congr fun field hfield => by rw [hsame field hfield]
  rw [heq]

/-- Nothing is read of the state of what keeps the secrets. -/
theorem SameSecrets.env (h : SameSecrets k v) (e e' : ε) :
    SameSecrets ⟨k.secrets, k.values, e⟩ (⟨v.secrets, v.values, e'⟩ : Shelf ε) :=
  ⟨h.values, h.full, h.owned, h.nodup, h.nodup', h.records⟩

/-- Two calls that do what they should from two such shelves. -/
theorem agree_of_does {P : α → β → Prop} {m : Call (Shelf ε) α} {n : Call (Shelf ε) β} {a : α} {b : β}
    {ks vs : List Secret} {kvals vvals : List (Text × Text)} (hm : Does m k a ks kvals) (hn : Does n v b vs vvals) (hab : P a b)
    (hsame : ∀ e e', SameSecrets (⟨ks, kvals, e⟩ : Shelf ε) ⟨vs, vvals, e'⟩) :
    Alike P (outcome m k).1 (outcome n v).1 ∧ SameSecrets (outcome m k).2 (outcome n v).2 := by
  obtain ⟨e, he⟩ := hm
  obtain ⟨e', he'⟩ := hn
  rw [he, he']
  exact ⟨hab, hsame e e'⟩

theorem names_same (h : SameSecrets k v) : sortedTexts (k.secrets.map Secret.name) = sortedTexts (v.secrets.map Secret.name) := by
  have hperm : (k.secrets.map Secret.name).Perm (v.secrets.map Secret.name) := by
    refine (List.perm_ext_iff_of_nodup h.nodup h.nodup').2 fun name => ?_
    rw [mem_names, mem_names, TwoRun.Rel.isSome (h.records name)]
  unfold sortedTexts
  exact ((List.perm_insertionSort _ _).trans (hperm.trans (List.perm_insertionSort _ _).symm)).eq_of_pairwise
    (fun _ _ _ _ => le_antisymm) (List.pairwise_insertionSort _ _) (List.pairwise_insertionSort _ _)

/-- A record put on both shelves that names the fields with a value. -/
theorem SameSecrets.put {a b : Secret} (h : SameSecrets k v) (hab : Record k.values a b) (e e' : ε) :
    SameSecrets ⟨put k.secrets a, k.values, e⟩ ⟨put v.secrets b, v.values, e'⟩ := by
  have hname : b.name = a.name := by
    obtain ⟨fields, rfl⟩ := hab.rest
    rfl
  refine ⟨h.values, h.full, fun name field hfield hsome => ?_, nodup_put h.nodup, nodup_put h.nodup', fun name => ?_⟩
  · rw [find_put]
    split
    · rfl
    · exact h.owned name field hfield hsome
  · rw [find_put, find_put, hname]
    split
    · exact .some hab
    · exact h.records name

/-- The record of a name that the keyring has is the one that Vault has. -/
theorem SameSecrets.found {a : Secret} (h : SameSecrets k v) (ha : find k.secrets name = some a) :
    ∃ b, find v.secrets name = some b ∧ Record k.values a b := by
  have hrecord := h.records name
  rw [ha] at hrecord
  cases hb : find v.secrets name with
  | none =>
    rw [hb] at hrecord
    cases hrecord
  | some b =>
    rw [hb] at hrecord
    cases hrecord with
    | some hr => exact ⟨b, rfl, hr⟩

/-- The records of a name whose values stay. -/
theorem SameSecrets.others (h : SameSecrets k v)
    (hsame : ∀ field ∈ VALUE_FIELDS, values.lookup (accountOf name field) = k.values.lookup (accountOf name field)) :
    Option.Rel (Record values) (find k.secrets name) (find v.secrets name) := by
  cases ha : find k.secrets name with
  | none =>
    have hrecord := h.records name
    rw [ha] at hrecord
    cases hb : find v.secrets name with
    | none => exact .none
    | some b =>
      rw [hb] at hrecord
      cases hrecord
  | some a =>
    obtain ⟨b, hb, hr⟩ := h.found ha
    rw [hb]
    refine .some (hr.congr fun field hfield => ?_)
    rw [(find_eq_some ha).2]
    exact hsame field hfield

/-- The values of one name changed, and its record in the keyring's catalogue with them. -/
theorem SameSecrets.revalue {a b : Secret} (h : SameSecrets k v) (hfind : find v.secrets a.name = some b)
    (hab : Record values a b) (hfull : ∀ kv ∈ values, kv.2 ≠ [])
    (hothers : ∀ name, name ≠ a.name → ∀ field ∈ VALUE_FIELDS,
      values.lookup (accountOf name field) = k.values.lookup (accountOf name field)) (e e' : ε) :
    SameSecrets ⟨Saddlebag.put k.secrets a, values, e⟩ (⟨v.secrets, values, e'⟩ : Shelf ε) := by
  refine ⟨rfl, hfull, fun name field hfield hsome => ?_, nodup_put h.nodup, h.nodup', fun name => ?_⟩
  · rw [find_put]
    split
    · rfl
    · next hne =>
      rw [hothers name hne field hfield] at hsome
      exact h.owned name field hfield hsome
  · rw [find_put]
    split
    · next heq =>
      rw [heq, hfind]
      exact .some hab
    · next hne => exact h.others (hothers name hne)

/-- `set_value` on both shelves. -/
theorem SameSecrets.set {a : Secret} {value : Text} (h : SameSecrets k v) (ha : find k.secrets name = some a)
    (hfield : field ∈ VALUE_FIELDS) (hvalue : value ≠ []) (e e' : ε) :
    SameSecrets ⟨Saddlebag.put k.secrets { a with fields := (a.fields ++ [field]).dedup },
        setKey (accountOf name field) value k.values, e⟩
      ⟨v.secrets, setKey (accountOf name field) value v.values, e'⟩ := by
  obtain ⟨b, hb, hrest, hfields⟩ := h.found ha
  obtain ⟨-, rfl⟩ := find_eq_some ha
  rw [← h.values]
  refine h.revalue (a := { a with fields := (a.fields ++ [field]).dedup }) hb ⟨?_, ?_⟩ (fun kv hkv => ?_) (fun other hother f hf => ?_) e e'
  · obtain ⟨fields, rfl⟩ := hrest
    exact ⟨fields, rfl⟩
  · refine (List.perm_ext_iff_of_nodup (List.nodup_dedup _) nodup_heldFields).2 fun f => ?_
    rw [List.mem_dedup, List.mem_append, List.mem_singleton, hfields.mem_iff, mem_heldFields, mem_heldFields, lookup_setKey]
    by_cases hf : f = field
    · subst hf
      simp [hfield]
    · by_cases hmem : f ∈ VALUE_FIELDS
      · have hne : ¬ accountOf a.name f = accountOf a.name field := fun heq => hf ((accountOf_eq hmem hfield).1 heq).2
        rw [if_neg hne]
        simp [hf]
      · simp [hf, hmem]
  · rcases mem_setKey hkv with hkv | rfl
    · exact h.full kv hkv
    · exact hvalue
  · rw [lookup_setKey, if_neg fun heq => hother ((accountOf_eq hf hfield).1 heq).1]

/-- `unset_value` on both shelves. -/
theorem SameSecrets.unset {a : Secret} (h : SameSecrets k v) (ha : find k.secrets name = some a)
    (hfield : field ∈ VALUE_FIELDS) (e e' : ε) :
    SameSecrets ⟨Saddlebag.put k.secrets { a with fields := a.fields.filter (· ≠ field) },
        k.values.filter fun kv => kv.1 ≠ accountOf name field, e⟩
      ⟨v.secrets, v.values.filter fun kv => kv.1 ≠ accountOf name field, e'⟩ := by
  obtain ⟨b, hb, hrest, hfields⟩ := h.found ha
  obtain ⟨-, rfl⟩ := find_eq_some ha
  rw [← h.values]
  refine h.revalue (a := { a with fields := a.fields.filter (· ≠ field) }) hb ⟨?_, ?_⟩ (fun kv hkv => ?_) (fun other hother f hf => ?_) e e'
  · obtain ⟨fields, rfl⟩ := hrest
    exact ⟨fields, rfl⟩
  · have hnodup : (a.fields.filter (· ≠ field)).Nodup := (hfields.nodup_iff.2 nodup_heldFields).filter _
    refine (List.perm_ext_iff_of_nodup hnodup nodup_heldFields).2 fun f => ?_
    rw [List.mem_filter, hfields.mem_iff, mem_heldFields, mem_heldFields, lookup_without]
    by_cases hf : f = field
    · subst hf
      simp
    · by_cases hmem : f ∈ VALUE_FIELDS
      · have hne : ¬ accountOf a.name f = accountOf a.name field := fun heq => hf ((accountOf_eq hmem hfield).1 heq).2
        rw [if_neg hne]
        simp [hf]
      · simp [hmem]
  · exact h.full kv (List.mem_filter.1 hkv).1
  · rw [lookup_without, if_neg fun heq => hother ((accountOf_eq hf hfield).1 heq).1]

/-- What is found after the two deletions. -/
theorem lookup_withoutName {other : Text} (hfield : field ∈ VALUE_FIELDS) :
    (withoutName values name).lookup (accountOf other field) =
      if other = name then none else values.lookup (accountOf other field) := by
  unfold withoutName
  rw [lookup_without, lookup_without]
  by_cases hother : other = name
  · subst hother
    simp only [VALUE_FIELDS, List.mem_cons, List.not_mem_nil, or_false] at hfield
    rcases hfield with rfl | rfl <;> simp
  · have hne : ∀ f ∈ VALUE_FIELDS, ¬ accountOf other field = accountOf name f :=
      fun f hf heq => hother ((accountOf_eq hfield hf).1 heq).1
    rw [if_neg (hne _ (by decide)), if_neg (hne _ (by decide)), if_neg hother]

/-- `remove` on both shelves. -/
theorem SameSecrets.removed (h : SameSecrets k v) (name : Text) (e e' : ε) :
    SameSecrets ⟨drop k.secrets name, withoutName k.values name, e⟩ ⟨drop v.secrets name, withoutName v.values name, e'⟩ := by
  have hnodup : ∀ {l : List Secret}, (l.map Secret.name).Nodup → ((drop l name).map Secret.name).Nodup :=
    fun hl => (List.filter_sublist.map _).nodup hl
  refine ⟨by rw [h.values], fun kv hkv => ?_, fun other field hfield hsome => ?_, hnodup h.nodup, hnodup h.nodup', fun other => ?_⟩
  · exact h.full kv (List.mem_filter.1 (List.mem_filter.1 hkv).1).1
  · rw [lookup_withoutName hfield] at hsome
    rw [find_drop]
    by_cases hother : other = name
    · rw [if_pos hother] at hsome
      cases hsome
    · rw [if_neg hother] at hsome ⊢
      exact h.owned other field hfield hsome
  · rw [find_drop, find_drop]
    by_cases hother : other = name
    · rw [if_pos hother, if_pos hother]
      exact .none
    · rw [if_neg hother, if_neg hother]
      refine h.others fun field hfield => ?_
      rw [lookup_withoutName hfield, if_neg hother]

/-- **The keyring and Vault answer alike** where they hold the same secrets, each step after the other
and none refused. -/
theorem paired_stores {B B' : Backend ε} (hB : Obliging B) (hB' : Obliging B') :
    Paired (keyringStore B) (vaultStore B') SameSecrets (fun name k _ => ∃ a, find k.secrets name = some a)
      (fun name k _ => find k.secrets name = none) fun _ v w => v = w where
  names k v h := agree_of_does (does_names hB k) (does_names hB' v) (names_same h) h.env
  get name k v h := by
    refine agree_of_does (does_get hB name k) (does_vault_get hB' name (h.values ▸ h.full)) ?_ h.env
    rw [← h.values]
    cases ha : find k.secrets name with
    | none =>
      have hrecord := h.records name
      rw [ha] at hrecord
      cases hb : find v.secrets name with
      | none => exact .none
      | some b =>
        rw [hb] at hrecord
        cases hrecord
    | some a =>
      obtain ⟨b, hb, ⟨fields, rfl⟩, hperm⟩ := h.found ha
      rw [hb, ← (find_eq_some ha).2]
      exact .some ⟨_, rfl, hperm⟩
  has name k v a h hout := by
    obtain ⟨e, he⟩ := does_get hB name k
    have hrun : outcome ((keyringStore B).get name) k = (.ok (find k.secrets name), ⟨k.secrets, k.values, e⟩) := he
    rw [hrun] at hout ⊢
    have ha : find k.secrets name = some a := Except.ok.inj hout
    exact ⟨a, by rw [(find_eq_some ha).2]; exact ha⟩
  lacks name k v h hout := by
    obtain ⟨e, he⟩ := does_get hB name k
    have hrun : outcome ((keyringStore B).get name) k = (.ok (find k.secrets name), ⟨k.secrets, k.values, e⟩) := he
    rw [hrun] at hout ⊢
    exact Except.ok.inj hout
  create secret hfields k v h := by
    refine agree_of_does (does_save hB _ k) (does_save hB' _ v) rfl fun e e' => h.1.put ⟨⟨secret.fields, rfl⟩, ?_⟩ e e'
    -- a name without a record has no value
    have hnil : heldFields k.values secret.name = [] := by
      refine List.filter_eq_nil_iff.2 fun field hfield hsome => ?_
      have howned := h.1.owned _ field hfield hsome
      rw [h.2] at howned
      cases howned
    show List.Perm [] (heldFields k.values secret.name)
    rw [hnil]
  set_value name field value hfield hvalue k v h := by
    obtain ⟨hsame, a, ha⟩ := h
    have hk : Does ((keyringStore B).set_value name field value) k ()
        (Saddlebag.put k.secrets { a with fields := (a.fields ++ [field]).dedup }) (setKey (accountOf name field) value k.values) :=
      (does_record hB ha).bind fun e => (does_set_password hB _ _ _).bind fun e' => does_save hB _ _
    have hv : Does ((vaultStore B').set_value name field value) v () v.secrets (setKey (accountOf name field) value v.values) :=
      (does_data hB' name v).bind fun e => does_set_password hB' _ _ _
    exact agree_of_does hk hv rfl fun e e' => hsame.set ha hfield hvalue e e'
  unset_value name field hfield k v h := by
    obtain ⟨hsame, a, ha⟩ := h
    have hk : Does ((keyringStore B).unset_value name field) k ()
        (Saddlebag.put k.secrets { a with fields := a.fields.filter (· ≠ field) })
        (k.values.filter fun kv => kv.1 ≠ accountOf name field) :=
      (does_record hB ha).bind fun e => (does_delete_password hB _ _).bind fun e' => does_save hB _ _
    have hv : Does ((vaultStore B').unset_value name field) v () v.secrets
        (v.values.filter fun kv => kv.1 ≠ accountOf name field) := by
      refine (does_data hB' name v).bind fun e => ?_
      rw [lookup_dataOf hfield]
      split
      · exact does_delete_password hB' _ _
      · next hnone =>
        have hsame : (v.values.filter fun kv => kv.1 ≠ accountOf name field) = v.values := by
          refine List.filter_eq_self.2 fun kv hkv => decide_eq_true fun heq => hnone ?_
          exact List.lookup_isSome_iff.2 ⟨kv, hkv, by rw [heq, beq_self_eq_true]⟩
        rw [hsame]
        exact Does.pure _ _
    exact agree_of_does hk hv rfl fun e e' => hsame.unset ha hfield e e'
  remove name k v h := by
    have hk : Does ((keyringStore B).remove name) k () (drop k.secrets name) (withoutName k.values name) :=
      (does_delete_all hB name k).bind fun e => does_save hB _ _
    have hv : Does ((vaultStore B').remove name) v () (drop v.secrets name) (withoutName v.values name) :=
      (does_delete_all hB' name v).bind fun e => does_save hB' _ _
    exact agree_of_does hk hv rfl fun e e' => h.1.removed name e e'
  value name field hnamed k v h := by
    have hrel : ∀ f : Secret → Option Text, (∀ a fields, f { a with fields } = f a) →
        (find k.secrets name).bind f =
          ((find v.secrets name).map fun secret => { secret with fields := heldFields v.values name }).bind f := by
      intro f hf
      cases ha : find k.secrets name with
      | none =>
        have hrecord := h.records name
        rw [ha] at hrecord
        cases hb : find v.secrets name with
        | none => rfl
        | some b =>
          rw [hb] at hrecord
          cases hrecord
      | some a =>
        obtain ⟨b, hb, ⟨fields, rfl⟩, -⟩ := h.found ha
        rw [hb]
        exact (hf a _).symm
    have hsame : ∀ o : Option Text, Option.Rel (Read (fun _ v w => v = w) field) o o := by
      intro o
      cases o with
      | none => exact .none
      | some x =>
        refine .some ?_
        unfold Read
        split <;> rfl
    show Alike _ (outcome (KeyringStore.value B name field) k).1 (outcome (VaultStore.value B' name field) v).1 ∧
      SameSecrets (outcome (KeyringStore.value B name field) k).2 (outcome (VaultStore.value B' name field) v).2
    unfold KeyringStore.value VaultStore.value
    by_cases huser : field = lit "username"
    · rw [if_pos huser, if_pos huser]
      have hk := (does_get hB name k).map fun secret => secret.bind (·.username)
      have hv := (does_vault_get hB' name (h.values ▸ h.full)).map fun secret => secret.bind (·.username)
      refine agree_of_does hk hv ?_ h.env
      rw [← hrel _ fun _ _ => rfl]
      exact hsame _
    · rw [if_neg huser, if_neg huser]
      by_cases hmeta : META_PREFIX.isPrefixOf field = true
      · rw [if_pos hmeta, if_pos hmeta]
        have hk := (does_get hB name k).map fun secret => secret.bind fun s => s.metadata.lookup (field.drop META_PREFIX.length)
        have hv := (does_vault_get hB' name (h.values ▸ h.full)).map fun secret =>
          secret.bind fun s => s.metadata.lookup (field.drop META_PREFIX.length)
        refine agree_of_does hk hv ?_ h.env
        rw [← hrel _ fun _ _ => rfl]
        exact hsame _
      · rw [if_neg hmeta, if_neg hmeta]
        have hmem := named_value hnamed huser hmeta
        have hv := (does_data hB' name v).map fun data => datum data field
        refine agree_of_does (does_get_password hB _ k) hv ?_ h.env
        rw [datum_dataOf (h.values ▸ h.full) hmem, h.values]
        exact hsame _
  retag name tags k v h := by
    obtain ⟨hsame, a, ha⟩ := h
    obtain ⟨b, hb, ⟨fields, rfl⟩, hperm⟩ := hsame.found ha
    have hk : Does ((keyringStore B).retag name tags) k () (Saddlebag.put k.secrets { a with tags }) k.values :=
      (does_record hB ha).bind fun e => does_save hB _ _
    have hv : Does ((vaultStore B').retag name tags) v ()
        (Saddlebag.put v.secrets { a with tags, fields := heldFields v.values name }) v.values :=
      (does_vault_record hB' (hsame.values ▸ hsame.full) hb).bind fun e => does_save hB' _ _
    have hab : Record k.values { a with tags } { a with tags, fields := heldFields v.values name } :=
      ⟨⟨heldFields v.values name, rfl⟩, hperm⟩
    exact agree_of_does hk hv rfl fun e e' => hsame.put hab e e'
  set_metadata name metadata k v h := by
    obtain ⟨hsame, a, ha⟩ := h
    obtain ⟨b, hb, ⟨fields, rfl⟩, hperm⟩ := hsame.found ha
    have hk : Does ((keyringStore B).set_metadata name metadata) k () (Saddlebag.put k.secrets { a with metadata }) k.values :=
      (does_record hB ha).bind fun e => does_save hB _ _
    have hv : Does ((vaultStore B').set_metadata name metadata) v ()
        (Saddlebag.put v.secrets { a with metadata, fields := heldFields v.values name }) v.values :=
      (does_vault_record hB' (hsame.values ▸ hsame.full) hb).bind fun e => does_save hB' _ _
    have hab : Record k.values { a with metadata } { a with metadata, fields := heldFields v.values name } :=
      ⟨⟨heldFields v.values name, rfl⟩, hperm⟩
    exact agree_of_does hk hv rfl fun e e' => hsame.put hab e e'

/-! ## Replies -/

variable {σ : Type} {doors : Doors σ} {counter : Counter} {B B' : Backend ε}

/-- The verbs are the same over every store. -/
theorem handlers_keys (store store' : SecretStore (Shelf ε)) :
    (handlers store doors counter).map Prod.fst = (handlers store' doors counter).map Prod.fst := by
  simp only [handlers, List.map_cons, List.map_nil]

theorem lookup_none_iff {γ : Type} {l : List (Text × γ)} {key : Text} : l.lookup key = none ↔ key ∉ l.map Prod.fst := by
  rw [List.lookup_eq_none_iff, List.mem_map]
  constructor
  · rintro h ⟨p, hp, rfl⟩
    exact bne_iff_ne.1 (h p hp) rfl
  · exact fun h p hp => bne_iff_ne.2 fun hkey => h ⟨p, hp, hkey.symm⟩

theorem handlers_none {store : SecretStore (Shelf ε)} (store' : SecretStore (Shelf ε)) {verb : Text}
    (h : (handlers store doors counter).lookup verb = none) : (handlers store' doors counter).lookup verb = none := by
  rw [lookup_none_iff] at h ⊢
  rwa [handlers_keys store' store]

/-- One request gets the same reply from both. -/
theorem handle_same (hB : Obliging B) (hB' : Obliging B') {request : Request} (hdoctor : request.verb ≠ lit "doctor")
    {a b : Bag (Shelf ε) σ} (hab : Twin SameSecrets a b) :
    (handle (keyringStore B) doors counter request a).1 = (handle (vaultStore B') doors counter request b).1 ∧
      Twin SameSecrets (handle (keyringStore B) doors counter request a).2 (handle (vaultStore B') doors counter request b).2 := by
  have hpaired := paired_stores hB hB'
  cases hlook : (handlers (keyringStore B) doors counter).lookup request.verb with
  | none =>
    have hlook' := handlers_none (vaultStore B') hlook
    unfold handle
    rw [hlook, hlook']
    exact ⟨rfl, hab⟩
  | some handler =>
    by_cases henv : request.verb = lit "env"
    · obtain rfl : verb_env (keyringStore B) = handler := by
        rw [henv] at hlook
        exact Option.some.inj hlook
      have hlook' : (handlers (vaultStore B') doors counter).lookup request.verb = some (verb_env (vaultStore B')) := by
        rw [henv]
        rfl
      have hagree : Agree (Twin SameSecrets) Eq (verb_env (keyringStore B) request.args : Run (Shelf ε) σ Entries)
          (verb_env (vaultStore B') request.args) := by
        refine (agree_envValues hpaired (fun _ _ h => h) (fun _ => rfl) (.inr fun _ _ h => h)).bind fun l l' hl => Agree.pure ?_
        rw [hl.eq]
      obtain ⟨htwin, -, -, heq⟩ := handle_of_agree hlook hlook' hagree hab
      exact ⟨heq fun _ _ hr => hr, htwin⟩
    · by_cases hclassify : request.verb = lit "classify"
      · obtain rfl : verb_classify (keyringStore B) = handler := by
          rw [hclassify] at hlook
          exact Option.some.inj hlook
        have hlook' : (handlers (vaultStore B') doors counter).lookup request.verb = some (verb_classify (vaultStore B')) := by
          rw [hclassify]
          rfl
        obtain ⟨htwin, -, -, heq⟩ := handle_of_agree hlook hlook'
          (agree_classify hpaired fun _ _ v w hvw => by rw [hvw]) hab
        refine ⟨heq fun r r' hr => hr fun x _ f _ v w hvw => by rw [hvw], htwin⟩
      · obtain ⟨handler', hlook', hagree⟩ := agree_handler hpaired (typing_eq doors) hlook henv hclassify hdoctor
        obtain ⟨htwin, -, -, heq⟩ := handle_of_agree hlook hlook' hagree hab
        exact ⟨heq fun _ _ hr => hr, htwin⟩

/-- **Any requests get the same replies from the keyring and from Vault**, but for what `doctor` says. -/
theorem replies_same (hB : Obliging B) (hB' : Obliging B') {requests : List Request} :
    ∀ {a b : Bag (Shelf ε) σ}, (∀ request ∈ requests, request.verb ≠ lit "doctor") → Twin SameSecrets a b →
    (serve (keyringStore B) doors counter requests a).1 = (serve (vaultStore B') doors counter requests b).1 := by
  induction requests with
  | nil => exact fun _ _ => rfl
  | cons request requests ih =>
    intro a b hdoctor hab
    obtain ⟨hhead, htail⟩ := List.forall_mem_cons.1 hdoctor
    have hsame : (handle (keyringStore B) doors counter request a).1 = (handle (vaultStore B') doors counter request b).1 ∧
        Twin SameSecrets (handle (keyringStore B) doors counter request a).2 (handle (vaultStore B') doors counter request b).2 :=
      handle_same hB hB' hhead hab
    obtain ⟨hreply, htwin⟩ := hsame
    have hserve : ∀ (store : SecretStore (Shelf ε)) (bag : Bag (Shelf ε) σ), (serve store doors counter (request :: requests) bag).1 =
        (handle store doors counter request bag).1 ::
          (serve store doors counter requests (handle store doors counter request bag).2).1 := fun _ _ => rfl
    rw [hserve, hserve, hreply, ih htail htwin]

/-- Two shelves with nothing on them. -/
theorem sameSecrets_empty (e e' : ε) : SameSecrets ⟨[], [], e⟩ ⟨[], [], e'⟩ :=
  ⟨rfl, fun _ h => absurd h List.not_mem_nil, fun _ _ _ h => (nomatch h), List.nodup_nil, List.nodup_nil, fun _ => .none⟩

end Pair

/-! ## Health -/

section Health

variable {ε α γ : Type} {B : Backend ε} {secrets : List Secret} {values : List (Text × Text)} {e : ε}

/-- A loop of calls that change nothing. -/
theorem does_foldlM {f : γ → α → Call (Shelf ε) γ} {g : γ → α → γ} {l : List α}
    (h : ∀ e c, ∀ x ∈ l, Does (f c x) ⟨secrets, values, e⟩ (g c x) secrets values) :
    ∀ {c : γ} {e : ε}, Does (l.foldlM f c) ⟨secrets, values, e⟩ (l.foldl g c) secrets values := by
  induction l with
  | nil => exact fun {c e} => Does.pure c _
  | cons x l ih =>
    intro c e
    rw [List.foldlM_cons, List.foldl_cons]
    exact (h e c x List.mem_cons_self).bind fun e' => ih fun e c y hy => h e c y (List.mem_cons_of_mem _ hy)

/-- The accounts that the record of a name names. -/
def namedAccounts (secrets : List Secret) (name : Text) : List Text :=
  ((find secrets name).map fun record => (sortedTexts record.fields).map (accountOf name)).getD []

theorem mem_namedAccounts {name account : Text} : account ∈ namedAccounts secrets name ↔
    ∃ record, find secrets name = some record ∧ ∃ field ∈ record.fields, account = accountOf name field := by
  unfold namedAccounts sortedTexts
  cases find secrets name with
  | none => simp
  | some record =>
    simp only [Option.map_some, Option.getD_some, List.mem_map, Option.some.injEq, exists_eq_left']
    constructor
    · rintro ⟨field, hfield, rfl⟩
      exact ⟨field, (List.perm_insertionSort _ _).mem_iff.1 hfield, rfl⟩
    · rintro ⟨field, hfield, rfl⟩
      exact ⟨field, (List.perm_insertionSort _ _).mem_iff.2 hfield, rfl⟩

/-- What the loop of `health` has found of some accounts. -/
def checked (values : List (Text × Text)) (acc : List Text × List Text) (accounts : List Text) : List Text × List Text :=
  (acc.1 ++ accounts, acc.2 ++ accounts.filter fun account => (values.lookup account).isNone)

theorem checked_checked (acc : List Text × List Text) (l l' : List Text) :
    checked values (checked values acc l) l' = checked values acc (l ++ l') := by
  unfold checked
  rw [List.filter_append, List.append_assoc, List.append_assoc]

theorem foldl_checked (values : List (Text × Text)) (f : α → List Text) (l : List α) : ∀ acc : List Text × List Text,
    l.foldl (fun acc x => checked values acc (f x)) acc = checked values acc (l.flatMap f) := by
  induction l with
  | nil =>
    intro acc
    simp [checked]
  | cons x l ih =>
    intro acc
    rw [List.foldl_cons, ih, checked_checked, List.flatMap_cons]

theorem does_checkField (hB : Obliging B) (name field : Text) (acc : List Text × List Text) :
    Does (do
      let account := accountOf name field
      let value ← get_password B account
      pure (acc.1 ++ [account], if value.isNone then acc.2 ++ [account] else acc.2) : Call (Shelf ε) (List Text × List Text))
      ⟨secrets, values, e⟩ (checked values acc [accountOf name field]) secrets values := by
  have hresult : checked values acc [accountOf name field] = (acc.1 ++ [accountOf name field],
      if (values.lookup (accountOf name field)).isNone then acc.2 ++ [accountOf name field] else acc.2) := by
    unfold checked
    by_cases h : (values.lookup (accountOf name field)).isNone = true <;> simp [h]
  rw [hresult]
  exact (does_get_password hB _ _).map fun value => (acc.1 ++ [accountOf name field],
    if value.isNone then acc.2 ++ [accountOf name field] else acc.2)

/-- **What `health` says of a shelf.** -/
structure Reports (secrets : List Secret) (values : List (Text × Text)) (report : StoreHealth) : Prop where
  /-- Exactly the items that no record names are orphans. -/
  orphans : ∃ orphans, report.orphan_items = some orphans ∧ ∀ account, account ∈ orphans ↔
    (∃ value, (account, value) ∈ values) ∧
      ¬∃ name record, find secrets name = some record ∧ ∃ field ∈ record.fields, account = accountOf name field
  /-- Exactly the fields that a record names and that have no item are missing. -/
  missing : ∀ account, account ∈ report.missing_items ↔ values.lookup account = none ∧
    ∃ name record, find secrets name = some record ∧ ∃ field ∈ record.fields, account = accountOf name field

/-- All accounts that the records name. -/
def claimedAccounts (secrets : List Secret) : List Text :=
  (sortedTexts (secrets.map Secret.name)).flatMap (namedAccounts secrets)

theorem mem_claimedAccounts {account : Text} : account ∈ claimedAccounts secrets ↔
    ∃ name record, find secrets name = some record ∧ ∃ field ∈ record.fields, account = accountOf name field := by
  unfold claimedAccounts
  rw [List.mem_flatMap]
  constructor
  · rintro ⟨name, -, hmem⟩
    obtain ⟨record, hfind, hfield⟩ := mem_namedAccounts.1 hmem
    exact ⟨name, record, hfind, hfield⟩
  · rintro ⟨name, record, hfind, hfield⟩
    refine ⟨name, ?_, mem_namedAccounts.2 ⟨record, hfind, hfield⟩⟩
    unfold sortedTexts
    refine (List.perm_insertionSort _ _).mem_iff.2 (mem_names.2 ?_)
    rw [hfind]
    rfl

/-- What `health` answers, in one term. -/
def healthOf (B : Backend ε) (secrets : List Secret) (values : List (Text × Text)) : StoreHealth :=
  ⟨lit "keyring", true, (claimedAccounts secrets).filter fun account => (values.lookup account).isNone,
    some (sortedTexts ((values.map Prod.fst).dedup.filter fun account => !(claimedAccounts secrets).contains account)),
    B.interpreter⟩

theorem does_health (hB : Obliging B) (hlist : ∀ held e, (B.accounts held e).1 = .ok (some held)) :
    Does (KeyringStore.health B) ⟨secrets, values, e⟩ (healthOf B secrets values) secrets values := by
  have hacc : checked values ([], []) (claimedAccounts secrets) =
      (claimedAccounts secrets, (claimedAccounts secrets).filter fun account => (values.lookup account).isNone) := by
    simp [checked]
  unfold KeyringStore.health
  refine (does_names hB _).bind fun e₁ => Does.read (checked values ([], []) (claimedAccounts secrets)) ?_ fun e₂ => ?_
  · unfold claimedAccounts
    rw [← foldl_checked]
    refine does_foldlM fun e acc name _ => (does_get hB name _).bind fun e' => ?_
    unfold namedAccounts
    dsimp only
    cases find secrets name with
    | none =>
      have hnil : checked values acc [] = acc := by simp [checked]
      rw [Option.map_none, Option.getD_none, hnil]
      exact Does.pure acc _
    | some record =>
      have hfold := foldl_checked values (fun field => [accountOf name field]) (sortedTexts record.fields) acc
      rw [Option.map_some, Option.getD_some, List.map_eq_flatMap, ← hfold]
      exact does_foldlM fun e c field _ => does_checkField hB name field c
  · rw [hacc]
    refine (does_contents _).bind fun e₃ => ?_
    exact (does_consult (hlist _ _)).bind fun e₄ => Does.pure (healthOf B secrets values) _

/-- **`health` tells what is out of step**, whatever has led to it, when nothing else happens meanwhile. -/
theorem health_reports (B : Backend ε) (secrets : List Secret) (values : List (Text × Text)) :
    Reports secrets values (healthOf B secrets values) := by
  refine ⟨⟨_, rfl, fun account => ?_⟩, fun account => ?_⟩
  · unfold sortedTexts
    rw [(List.perm_insertionSort _ _).mem_iff, List.mem_filter, List.mem_dedup, List.mem_map, ← mem_claimedAccounts]
    refine and_congr ⟨?_, ?_⟩ (by simp)
    · rintro ⟨kv, hkv, rfl⟩
      exact ⟨kv.2, hkv⟩
    · exact fun ⟨v, hv⟩ => ⟨(account, v), hv, rfl⟩
  · unfold healthOf
    rw [List.mem_filter, ← mem_claimedAccounts, Option.isNone_iff_eq_none]
    exact and_comm

end Health

end Stablemate.Saddlebag
