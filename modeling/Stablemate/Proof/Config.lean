import Stablemate.Lib.Checks
import Stablemate.Model.Config

/-!
# What a migrated config keeps

* `folded_spec`: what the global loops leave of a profile.
* `migrated_spec`: what the rewrite of a profile leaves of it.
* `migration_keeps_iff`: **the migration keeps each profile's own entries exactly for the configs
  in which these stand first**, and no tier or default stands that it cannot place.
-/

namespace Stablemate.Config

open Dict

variable {d p q r e cfg out ps power : Table} {P b c t k k' : Text} {x : Toml}

/-! ## Tables in tables -/

theorem child_set (d : Table) (k : Text) (x : Toml) (k' : Text) :
    child (set d k x) k' = if k = k' then x.dict? else child d k' := by
  unfold child
  rw [get_set]
  split <;> rfl

theorem dict?_eq_some {x : Toml} : x.dict? = some e ↔ x = .table e := by
  cases x <;> simp [Toml.dict?]

theorem child_eq_some : child d k = some e ↔ get d k = some (.table e) := by
  unfold child
  rw [Option.bind_eq_some_iff]
  simp only [dict?_eq_some]
  constructor
  · rintro ⟨x, hget, rfl⟩
    exact hget
  · intro hget
    exact ⟨_, hget, rfl⟩

theorem Toml.WF.nodup (h : Toml.WF (.table d)) : (d.map Prod.fst).Nodup := by
  cases h with
  | table hnodup _ => exact hnodup

theorem Toml.WF.child (h : Toml.WF (.table d)) (hchild : child d k = some e) : Toml.WF (.table e) := by
  cases h with
  | table _ hall => exact hall _ (mem_of_get (child_eq_some.1 hchild))

theorem Toml.WF.childD (h : Toml.WF (.table d)) (k : Text) : Toml.WF (.table ((Config.child d k).getD [])) := by
  cases hchild : Config.child d k with
  | none => exact .table List.nodup_nil fun _ hkx => (List.not_mem_nil hkx).elim
  | some e => exact h.child hchild

/-- The mapping that a config or a profile has for a tier and a backend. -/
def powerEntry (d : Table) (tier backend : Text) : Option Table :=
  (child d "power".toList).bind fun power => (child power tier).bind fun by_backend => child by_backend backend

/-- The mapping that a config has for a backend by default. -/
def defaultOf (cfg : Table) (backend : Text) : Option Table :=
  (child cfg "default".toList).bind fun default_table => (get default_table backend).bind defaultEntry

/-- `powers.<tier>` of a profile. -/
def tierOf (profile : Table) (tier : Text) : Option Toml :=
  (child profile PROFILE_POWERS_KEY).bind fun powers => get powers tier

/-- `[profiles.<name>]` -/
def profileOf (cfg : Table) (name : Text) : Option Table :=
  (child cfg PROFILES_KEY).bind fun profiles => child profiles name

/-! ## The items of a `power` table -/

/-- Rows that are put together tier by tier have at their head, for a tier, what the tier's own have. -/
theorem get_flatMap (hnodup : (power.map Prod.fst).Nodup) (rows : Table → List Toml) (t : Text) :
    get ((choose Toml.dict? power).flatMap fun tb => (rows tb.2).map fun m => (tb.1, m)) t =
      (child power t).bind fun by_backend => (rows by_backend).head? := by
  have hblock : ∀ (s : Text) (ms : List Toml), get (ms.map fun m => (s, m)) t = if s = t then ms.head? else none := by
    intro s ms
    cases ms with
    | nil => simp
    | cons m ms =>
      rw [List.map_cons, get_cons]
      split
      · rfl
      · rename_i hne
        rw [get_eq_none_iff, List.map_map]
        rintro hmem
        obtain ⟨_, -, heq⟩ := List.mem_map.1 hmem
        exact hne heq
  have hchosen : ((choose Toml.dict? power).map Prod.fst).Nodup := hnodup.sublist (keys_choose_sublist _ _)
  have hget : child power t = get (choose Toml.dict? power) t := (get_choose hnodup t).symm
  rw [hget]
  generalize choose Toml.dict? power = l at hchosen
  induction l with
  | nil => rfl
  | cons tb l ih =>
    rw [List.map_cons, List.nodup_cons] at hchosen
    rw [List.flatMap_cons, get_append, hblock, ih hchosen.2, get_cons]
    split
    · rename_i heq
      have hnone : get l t = none := get_eq_none_iff.2 (heq ▸ hchosen.1)
      rw [hnone, Option.bind_none, Option.or_none, Option.bind_some]
    · rw [Option.none_or]

/-- The mappings that a tier lists, in their order. -/
def listedIn (by_backend : Table) : List Toml := (choose Toml.dict? by_backend).map fun kx => .table kx.2

/-- Those of one backend. -/
def listedFor (backend : Text) (by_backend : Table) : List Toml :=
  ((choose Toml.dict? by_backend).filter fun kx => kx.1 = backend).map fun kx => .table kx.2

theorem head?_listedFor (hnodup : (d.map Prod.fst).Nodup) (b : Text) :
    (listedFor b d).head? = (child d b).map Toml.table := by
  have hget : child d b = get (choose Toml.dict? d) b := (get_choose hnodup b).symm
  unfold listedFor
  rw [hget, ← head?_filter, List.head?_map, Option.map_map]
  rfl

/-- The items for a backend, as they are filed. -/
def itemsFor (power : Table) (backend : Text) : Table :=
  ((powerItems power).filter fun item => item.2.1 = backend).map fun item => (item.1, .table item.2.2)

/-- All items, as they are filed. -/
def allItems (power : Table) : Table := (powerItems power).map fun item => (item.1, .table item.2.2)

theorem get_itemsFor (hwf : Toml.WF (.table power)) (b t : Text) :
    get (itemsFor power b) t = ((child power t).bind fun by_backend => child by_backend b).map Toml.table := by
  have heq : itemsFor power b = (choose Toml.dict? power).flatMap fun tb => (listedFor b tb.2).map fun m => (tb.1, m) := by
    unfold itemsFor powerItems listedFor
    rw [List.filter_flatMap, List.map_flatMap]
    refine congrArg (fun f => List.flatMap f _) (funext fun tb => ?_)
    rw [List.filter_map, List.map_map, List.map_map]
    rfl
  rw [heq, get_flatMap hwf.nodup]
  cases hchild : child power t with
  | none => rfl
  | some bs =>
    rw [Option.bind_some, Option.bind_some, head?_listedFor (hwf.child hchild).nodup]

theorem get_allItems (hwf : Toml.WF (.table power)) (t : Text) :
    get (allItems power) t = ((child power t).map listedIn |>.getD []).head? := by
  have heq : allItems power = (choose Toml.dict? power).flatMap fun tb => (listedIn tb.2).map fun m => (tb.1, m) := by
    unfold allItems powerItems listedIn
    rw [List.map_flatMap]
    refine congrArg (fun f => List.flatMap f _) (funext fun tb => ?_)
    rw [List.map_map, List.map_map]
    rfl
  rw [heq, get_flatMap hwf.nodup]
  cases child power t <;> rfl

/-! ## The global loops -/

theorem get_filePowers_of_ne (items : Table) (hk : k ≠ PROFILE_POWERS_KEY) : get (filePowers items p) k = get p k := by
  unfold filePowers
  rw [get_set, if_neg (Ne.symm hk)]

theorem tierOf_filePowers (items p : Table) (t : Text) : tierOf (filePowers items p) t = (tierOf p t).or (get items t) := by
  unfold tierOf filePowers
  rw [child_set, if_pos rfl]
  show get (file _ items) t = _
  rw [get_file]
  cases child p PROFILE_POWERS_KEY <;> rfl

theorem child_onProfile (ps : Table) (b : Text) (change : Table → Table) (P : Text) :
    child (onProfile ps b change) P = if b = P then some (change (ensured (child ps P) P)) else child ps P := by
  unfold onProfile _ensure_cli_profile
  rw [child_set]
  split
  · rename_i heq
    rw [heq]
    rfl
  · rfl

/-- A change to the profile of a name. -/
abbrev Change := Text × (Table → Table)

/-- Changes made one after the other. -/
def applied (changes : List (Table → Table)) (p : Table) : Table := changes.foldl (fun p change => change p) p

theorem ensured_of_cli (h : (get p PROFILE_CLI_KEY).isSome) (b : Text) : ensured (some p) b = p := by
  unfold ensured setdefault
  rw [Option.getD_some, if_pos h]

theorem get_ensured (o : Option Table) (b k : Text) :
    get (ensured o b) k = (get (o.getD []) k).or (if k = PROFILE_CLI_KEY then some (.str b) else none) := by
  unfold ensured
  rw [get_setdefault]
  by_cases hk : PROFILE_CLI_KEY = k
  · rw [if_pos hk, if_pos hk.symm, hk]
    cases o with
    | none =>
      rw [Option.getD_none, Option.getD_none, get_cons, if_pos rfl]
      rfl
    | some p =>
      rw [Option.getD_some, Option.getD_some]
      cases get p k <;> rfl
  · rw [if_neg hk, if_neg (Ne.symm hk), Option.or_none]
    cases o with
    | none => rw [Option.getD_none, Option.getD_none, get_cons, if_neg hk]
    | some p => rfl

/-- **Changes that keep the CLI** come one after the other to the profile they name. -/
theorem child_foldl_onProfile {changes : List Change}
    (hkeep : ∀ s ∈ changes, ∀ p, get (s.2 p) PROFILE_CLI_KEY = get p PROFILE_CLI_KEY) (ps : Table) (P : Text) :
    child (changes.foldl (fun ps s => onProfile ps s.1 s.2) ps) P =
      if (changes.filter fun s => s.1 = P) = [] then child ps P
      else some (applied ((changes.filter fun s => s.1 = P).map Prod.snd) (ensured (child ps P) P)) := by
  induction changes generalizing ps with
  | nil => rfl
  | cons s changes ih =>
    rw [List.foldl_cons, ih (fun s hs => hkeep s (List.mem_cons_of_mem _ hs)), child_onProfile]
    by_cases hs : s.1 = P
    · have hcli : (get (s.2 (ensured (child ps P) P)) PROFILE_CLI_KEY).isSome := by
        rw [hkeep s List.mem_cons_self, get_ensured, if_pos rfl]
        cases get ((child ps P).getD []) PROFILE_CLI_KEY <;> rfl
      rw [if_pos hs, List.filter_cons_of_pos (by simpa using hs), if_neg (List.cons_ne_nil _ _), List.map_cons]
      show _ = some (applied _ (s.2 _))
      rw [ensured_of_cli hcli]
      split
      · rename_i hnil
        rw [hnil]
        rfl
      · rfl
    · rw [if_neg hs, List.filter_cons_of_neg (by simpa using hs)]

/-- What is done to the profiles by the two global loops. -/
def globalChanges (cfg : Table) : List Change :=
  (powerItems ((child cfg "power".toList).getD [])).map (fun item =>
    (item.2.1, filePowers [(item.1, .table item.2.2)])) ++
  (choose defaultEntry ((child cfg "default".toList).getD [])).map fun item =>
    (item.1, fun profile => setdefault profile PROFILE_DEFAULT_KEY (.table item.2))

theorem folded_eq (cfg : Table) : folded cfg =
    (globalChanges cfg).foldl (fun ps s => onProfile ps s.1 s.2) ((child cfg PROFILES_KEY).getD []) := by
  unfold folded foldDefault foldPower globalChanges
  rw [List.foldl_append, List.foldl_map, List.foldl_map]

theorem globalChanges_keep : ∀ s ∈ globalChanges cfg, ∀ p, get (s.2 p) PROFILE_CLI_KEY = get p PROFILE_CLI_KEY := by
  intro s hs p
  rcases List.mem_append.1 hs with hs | hs
  · obtain ⟨item, -, rfl⟩ := List.mem_map.1 hs
    exact get_filePowers_of_ne _ (by decide)
  · obtain ⟨item, -, rfl⟩ := List.mem_map.1 hs
    show get (setdefault p _ _) _ = _
    rw [get_setdefault, if_neg (by decide)]

/-- The default entries for a backend, as they are filed. -/
def defaultsFor (cfg : Table) (backend : Text) : List (Text × Table) :=
  (choose defaultEntry ((child cfg "default".toList).getD [])).filter fun item => item.1 = backend

/-- The changes to one profile. -/
theorem globalChanges_filter (cfg : Table) (P : Text) :
    ((globalChanges cfg).filter fun s => s.1 = P).map Prod.snd =
      ((itemsFor ((child cfg "power".toList).getD []) P).map fun kx => filePowers [kx]) ++
        (defaultsFor cfg P).map fun item profile => setdefault profile PROFILE_DEFAULT_KEY (.table item.2) := by
  unfold globalChanges itemsFor defaultsFor
  rw [List.filter_append, List.map_append, List.filter_map, List.filter_map, List.map_map, List.map_map, List.map_map]
  rfl

theorem applied_append (fs gs : List (Table → Table)) (p : Table) : applied (fs ++ gs) p = applied gs (applied fs p) :=
  List.foldl_append ..

theorem get_applied_filePowers (items p : Table) (hk : k ≠ PROFILE_POWERS_KEY) :
    get (applied (items.map fun kx => filePowers [kx]) p) k = get p k := by
  induction items generalizing p with
  | nil => rfl
  | cons kx items ih => exact (ih _).trans (get_filePowers_of_ne _ hk)

theorem tierOf_applied_filePowers (items p : Table) (t : Text) :
    tierOf (applied (items.map fun kx => filePowers [kx]) p) t = (tierOf p t).or (get items t) := by
  induction items generalizing p with
  | nil =>
    rw [get_nil, Option.or_none]
    rfl
  | cons kx items ih =>
    have hstep : tierOf (applied ((kx :: items).map fun kx => filePowers [kx]) p) t =
        (tierOf (filePowers [kx] p) t).or (get items t) := ih _
    rw [hstep, tierOf_filePowers, Option.or_assoc, get_cons, get_cons, get_nil]
    split <;> rfl

theorem get_applied_setdefault (l : List (Text × Table)) (p : Table) (k : Text) :
    get (applied (l.map fun item profile => setdefault profile PROFILE_DEFAULT_KEY (.table item.2)) p) k =
      (get p k).or (if k = PROFILE_DEFAULT_KEY then l.head?.map fun item => .table item.2 else none) := by
  induction l generalizing p with
  | nil =>
    show get p k = _
    split <;> exact Option.or_none.symm
  | cons item l ih =>
    have hstep : get (applied ((item :: l).map fun item profile =>
        setdefault profile PROFILE_DEFAULT_KEY (.table item.2)) p) k = _ := ih (setdefault p _ _)
    rw [hstep, get_setdefault]
    by_cases hk : k = PROFILE_DEFAULT_KEY
    · rw [if_pos hk, if_pos hk, if_pos hk.symm, hk]
      cases get p PROFILE_DEFAULT_KEY <;> rfl
    · rw [if_neg hk, if_neg hk, if_neg (Ne.symm hk)]

/-- A global entry names the profile. -/
def Touched (cfg : Table) (P : Text) : Prop := (∃ t e, powerEntry cfg t P = some e) ∨ ∃ e, defaultOf cfg P = some e

theorem get_itemsFor_global (hwf : Toml.WF (.table cfg)) (P t : Text) :
    get (itemsFor ((child cfg "power".toList).getD []) P) t = (powerEntry cfg t P).map Toml.table := by
  rw [get_itemsFor (hwf.childD _)]
  unfold powerEntry
  cases child cfg "power".toList <;> rfl

theorem head?_defaultsFor (hwf : Toml.WF (.table cfg)) (P : Text) :
    (defaultsFor cfg P).head?.map Prod.snd = defaultOf cfg P := by
  unfold defaultsFor defaultOf
  rw [head?_filter, get_choose (hwf.childD _).nodup]
  cases child cfg "default".toList <;> rfl

theorem changes_eq_nil_iff (hwf : Toml.WF (.table cfg)) (P : Text) :
    ((globalChanges cfg).filter fun s => s.1 = P) = [] ↔ ¬ Touched cfg P := by
  have hitems : itemsFor ((child cfg "power".toList).getD []) P = [] ↔ ¬ ∃ t e, powerEntry cfg t P = some e := by
    rw [eq_nil_iff_get, not_exists]
    refine forall_congr' fun t => ?_
    rw [get_itemsFor_global hwf, Option.map_eq_none_iff, Option.eq_none_iff_forall_ne_some, not_exists]
  have hdefaults : defaultsFor cfg P = [] ↔ ¬ ∃ e, defaultOf cfg P = some e := by
    rw [← head?_defaultsFor hwf, ← List.head?_eq_none_iff]
    simp only [not_exists, ← Option.eq_none_iff_forall_ne_some, Option.map_eq_none_iff]
  rw [← List.map_eq_nil_iff (f := Prod.snd), globalChanges_filter, List.append_eq_nil_iff, List.map_eq_nil_iff,
    List.map_eq_nil_iff, hitems, hdefaults, Touched, not_or]

/-- **What the global loops leave of a profile.** -/
structure Folded (cfg : Table) (P : Text) (p q : Table) : Prop where
  cli : (¬ Touched cfg P ∧ get q PROFILE_CLI_KEY = get p PROFILE_CLI_KEY) ∨
    (Touched cfg P ∧ get q PROFILE_CLI_KEY = (get p PROFILE_CLI_KEY).or (some (.str P)))
  tier : ∀ t, tierOf q t = (tierOf p t).or ((powerEntry cfg t P).map Toml.table)
  default : get q PROFILE_DEFAULT_KEY = (get p PROFILE_DEFAULT_KEY).or ((defaultOf cfg P).map Toml.table)
  rest : ∀ k, k ≠ PROFILE_CLI_KEY → k ≠ PROFILE_POWERS_KEY → k ≠ PROFILE_DEFAULT_KEY → get q k = get p k

theorem tierOf_congr (h : get p PROFILE_POWERS_KEY = get q PROFILE_POWERS_KEY) (t : Text) : tierOf p t = tierOf q t := by
  unfold tierOf child
  rw [h]

theorem folded_isSome (hwf : Toml.WF (.table cfg)) (P : Text) :
    (child (folded cfg) P).isSome ↔ (profileOf cfg P).isSome ∨ Touched cfg P := by
  have hprofile : child ((child cfg PROFILES_KEY).getD []) P = profileOf cfg P := by
    unfold profileOf
    cases child cfg PROFILES_KEY <;> rfl
  rw [folded_eq, child_foldl_onProfile globalChanges_keep, hprofile]
  by_cases htouched : Touched cfg P
  · rw [if_neg fun hnil => (changes_eq_nil_iff hwf P).1 hnil htouched]
    exact iff_of_true rfl (.inr htouched)
  · rw [if_pos ((changes_eq_nil_iff hwf P).2 htouched)]
    exact ⟨.inl, fun h => h.resolve_right htouched⟩

theorem folded_spec (hwf : Toml.WF (.table cfg)) (h : child (folded cfg) P = some q) :
    Folded cfg P ((profileOf cfg P).getD []) q := by
  have hprofile : child ((child cfg PROFILES_KEY).getD []) P = profileOf cfg P := by
    unfold profileOf
    cases child cfg PROFILES_KEY <;> rfl
  rw [folded_eq, child_foldl_onProfile globalChanges_keep, hprofile] at h
  by_cases htouched : Touched cfg P
  · rw [if_neg fun hnil => (changes_eq_nil_iff hwf P).1 hnil htouched] at h
    obtain rfl := Option.some.inj h
    -- the powers are filed before the defaults, each under a key of its own
    rw [globalChanges_filter, applied_append]
    set base := ensured (profileOf cfg P) P with hbase
    have hget : ∀ k, get base k = (get ((profileOf cfg P).getD []) k).or (if k = PROFILE_CLI_KEY then some (.str P) else none) :=
      get_ensured _ P
    refine ⟨.inr ⟨htouched, ?_⟩, fun t => ?_, ?_, fun k hcli hpowers hdefault => ?_⟩
    · rw [get_applied_setdefault, if_neg (by decide), Option.or_none, get_applied_filePowers _ _ (by decide), hget, if_pos rfl]
    · have hpowers : ∀ p, get (applied ((defaultsFor cfg P).map fun item profile =>
          setdefault profile PROFILE_DEFAULT_KEY (.table item.2)) p) PROFILE_POWERS_KEY = get p PROFILE_POWERS_KEY := by
        intro p
        rw [get_applied_setdefault, if_neg (by decide), Option.or_none]
      have hpowers' : get base PROFILE_POWERS_KEY = get ((profileOf cfg P).getD []) PROFILE_POWERS_KEY := by
        rw [hget, if_neg (by decide), Option.or_none]
      rw [tierOf_congr (hpowers _), tierOf_applied_filePowers, get_itemsFor_global hwf, tierOf_congr hpowers']
    · rw [get_applied_setdefault, if_pos rfl, get_applied_filePowers _ _ (by decide), hget, if_neg (by decide), Option.or_none,
        ← head?_defaultsFor hwf, Option.map_map]
      rfl
    · rw [get_applied_setdefault, if_neg hdefault, Option.or_none, get_applied_filePowers _ _ hpowers, hget, if_neg hcli,
        Option.or_none]
  · rw [if_pos ((changes_eq_nil_iff hwf P).2 htouched)] at h
    rw [h]
    have hpower : ∀ t, powerEntry cfg t P = none := fun t =>
      Option.eq_none_iff_forall_ne_some.2 fun e he => htouched (.inl ⟨t, e, he⟩)
    have hdefault : defaultOf cfg P = none := Option.eq_none_iff_forall_ne_some.2 fun e he => htouched (.inr ⟨e, he⟩)
    refine ⟨.inl ⟨htouched, rfl⟩, fun t => ?_, ?_, fun _ _ _ _ => rfl⟩
    · rw [hpower, Option.map_none, Option.or_none]
      rfl
    · rw [hdefault, Option.map_none, Option.or_none]
      rfl

/-! ## The rewrite of a profile -/

theorem renameCli_spec {name : Text} (h : renameCli name p = .ok q) :
    get q PROFILE_CLI_KEY = (get p PROFILE_CLI_KEY).or ((legacyCli p).map Toml.str) ∧
      ∀ k, k ≠ PROFILE_CLI_KEY → k ≠ "default_cli".toList → get q k = get p k := by
  unfold renameCli at h
  split at h
  · rename_i hcli
    obtain rfl := Except.ok.inj h
    obtain ⟨x, hx⟩ := Option.isSome_iff_exists.1 hcli
    refine ⟨?_, fun k _ hk => ?_⟩
    · rw [get_pop, if_neg (by decide), hx]
      rfl
    · rw [get_pop, if_neg (Ne.symm hk)]
  · rename_i hcli
    rw [Option.not_isSome_iff_eq_none.1 hcli]
    split at h
    · rename_i c hc
      obtain rfl := Except.ok.inj h
      rw [hc]
      refine ⟨?_, fun k hk hk' => ?_⟩
      · rw [get_set, if_pos rfl]
        rfl
      · rw [get_set, if_neg (Ne.symm hk), get_pop, if_neg (Ne.symm hk')]
    · cases h

/-- The mappings for a tier that a profile's own `power` table lists, in its order. -/
def nestedListed (profile : Table) (tier : Text) : List Toml :=
  ((child profile "power".toList).bind fun power => (child power tier).map listedIn).getD []

theorem get_nestedPower_of_ne (p : Table) (hk : k ≠ PROFILE_POWERS_KEY) (hk' : k ≠ "power".toList) :
    get (nestedPower p) k = get p k := by
  unfold nestedPower
  split
  · rw [get_filePowers_of_ne _ hk, get_pop, if_neg (Ne.symm hk')]
  · rw [get_pop, if_neg (Ne.symm hk')]

theorem tierOf_nestedPower (hwf : ∀ power, child p "power".toList = some power → Toml.WF (.table power)) (t : Text) :
    tierOf (nestedPower p) t = (tierOf p t).or (nestedListed p t).head? := by
  have hpop : tierOf (pop p "power".toList) t = tierOf p t :=
    tierOf_congr (by rw [get_pop, if_neg (by decide)]) t
  unfold nestedPower nestedListed
  split
  · rename_i power hpower
    have hitems : get (allItems power) t = _ := get_allItems (hwf power hpower) t
    rw [tierOf_filePowers, hpop, hpower]
    exact congrArg _ hitems
  · rename_i hnone
    rw [hpop, hnone]
    exact Option.or_none.symm

theorem get_nestedDefault_of_ne (p : Table) (hk : k ≠ PROFILE_DEFAULT_KEY) : get (nestedDefault p) k = get p k := by
  unfold nestedDefault
  split
  · split
    · rw [get_setdefault, if_neg (Ne.symm hk), get_pop, if_neg (Ne.symm hk)]
    · rw [get_pop, if_neg (Ne.symm hk)]
  · rw [get_pop, if_neg (Ne.symm hk)]

theorem get_nestedDefault (p : Table) : get (nestedDefault p) PROFILE_DEFAULT_KEY =
    ((child p PROFILE_DEFAULT_KEY).bind (nestedEntry p)).map Toml.table := by
  have hpop : get (pop p PROFILE_DEFAULT_KEY) PROFILE_DEFAULT_KEY = none := by
    rw [get_pop, if_pos rfl]
  unfold nestedDefault
  split
  · rename_i nested hnested
    rw [hnested, Option.bind_some]
    split
    · rename_i entry hentry
      rw [get_setdefault, if_pos rfl, hpop, hentry]
      rfl
    · rename_i hentry
      rw [hpop, hentry]
      rfl
  · rename_i hnone
    rw [hpop, hnone]
    rfl

/-- The profile's CLI alone decides what its `default` table leaves. -/
theorem nestedEntry_congr (h : get p PROFILE_CLI_KEY = get q PROFILE_CLI_KEY) : nestedEntry p = nestedEntry q := by
  funext nested
  unfold nestedEntry _profile_cli
  rw [h]

/-- **What the rewrite leaves of a profile.** -/
structure Migrated (q r : Table) : Prop where
  cli : get r PROFILE_CLI_KEY = (get q PROFILE_CLI_KEY).or ((legacyCli q).map Toml.str)
  tier : ∀ t, tierOf r t = (tierOf q t).or (nestedListed q t).head?
  default : get r PROFILE_DEFAULT_KEY = ((child q PROFILE_DEFAULT_KEY).bind (nestedEntry r)).map Toml.table

theorem migrateProfile_table (name : Text) (p : Table) : migrateProfile name (.table p) =
    (renameCli name p).map fun p => .table (nestedDefault (nestedPower p)) := rfl

theorem migrated_spec (hwf : ∀ power, child q "power".toList = some power → Toml.WF (.table power))
    (h : migrateProfile P (.table q) = .ok x) : ∃ r, x = .table r ∧ Migrated q r := by
  rw [migrateProfile_table] at h
  cases hq' : renameCli P q with
  | error e =>
    rw [hq'] at h
    cases h
  | ok q' =>
  rw [hq'] at h
  obtain rfl := Except.ok.inj h
  obtain ⟨hcli, hrest⟩ := renameCli_spec hq'
  have hpower : child q' "power".toList = child q "power".toList := by
    unfold child
    rw [hrest _ (by decide) (by decide)]
  have hsame : get (nestedDefault (nestedPower q')) PROFILE_CLI_KEY = get q' PROFILE_CLI_KEY := by
    rw [get_nestedDefault_of_ne _ (by decide), get_nestedPower_of_ne _ (by decide) (by decide)]
  refine ⟨_, rfl, hsame.trans hcli, fun t => ?_, ?_⟩
  · have hlisted : nestedListed q' t = nestedListed q t := by
      unfold nestedListed
      rw [hpower]
    rw [tierOf_congr (get_nestedDefault_of_ne _ (by decide)), tierOf_nestedPower (fun power => hpower ▸ hwf power), hlisted,
      tierOf_congr (hrest _ (by decide) (by decide))]
  · have hchild : child (nestedPower q') PROFILE_DEFAULT_KEY = child q PROFILE_DEFAULT_KEY := by
      unfold child
      rw [get_nestedPower_of_ne _ (by decide) (by decide), hrest _ (by decide) (by decide)]
    rw [get_nestedDefault, hchild, nestedEntry_congr (p := nestedPower q') (q := nestedDefault (nestedPower q'))]
    rw [get_nestedDefault_of_ne _ (by decide)]

/-! ## The whole migration -/

/-- The rewrite of all profiles leaves each under its name. -/
theorem get_rewritten {l l' : Table} (h : List.Forall₂ (fun item item' => migrateItem item = .ok item') l l') (P : Text) :
    (get l P = none ∧ get l' P = none) ∨
      ∃ x y, get l P = some x ∧ get l' P = some y ∧ migrateProfile P x = .ok y := by
  induction h with
  | nil => exact .inl ⟨rfl, rfl⟩
  | @cons item item' l l' hitem _ ih =>
    obtain ⟨name, x⟩ := item
    unfold migrateItem at hitem
    cases hx : migrateProfile name x with
    | error e =>
      rw [hx] at hitem
      cases hitem
    | ok y =>
      rw [hx] at hitem
      obtain rfl := Except.ok.inj hitem
      rw [get_cons, get_cons]
      by_cases hname : name = P
      · rw [if_pos hname, if_pos hname]
        exact .inr ⟨x, y, rfl, rfl, hname ▸ hx⟩
      · rw [if_neg hname, if_neg hname]
        exact ih

theorem child_rewritten {l l' : Table} (h : List.Forall₂ (fun item item' => migrateItem item = .ok item') l l')
    (P : Text) : (child l P = none ∧ child l' P = none) ∨
      ∃ q y, child l P = some q ∧ get l' P = some y ∧ migrateProfile P (.table q) = .ok y := by
  rcases get_rewritten h P with ⟨hl, hl'⟩ | ⟨x, y, hx, hy, hmigrate⟩
  · refine .inl ⟨?_, ?_⟩
    · rw [child, hl, Option.bind_none]
    · rw [child, hl', Option.bind_none]
  · unfold child
    rw [hx, hy, Option.bind_some, Option.bind_some]
    cases x with
    | table q => exact .inr ⟨q, y, rfl, rfl, hmigrate⟩
    | str s => exact .inl ⟨rfl, by rw [← Except.ok.inj hmigrate]; rfl⟩
    | int n => exact .inl ⟨rfl, by rw [← Except.ok.inj hmigrate]; rfl⟩
    | other text => exact .inl ⟨rfl, by rw [← Except.ok.inj hmigrate]; rfl⟩

theorem get_renameHarness_of_ne (d : Table) (hk : k ≠ CLI_KEY) (hk' : k ≠ "harness".toList) :
    get (renameHarness d) k = get d k := by
  unfold renameHarness
  split
  · rw [get_set, if_neg (Ne.symm hk), get_pop, if_neg (Ne.symm hk')]
  · rw [get_pop, if_neg (Ne.symm hk')]

theorem get_profiles_assemble (cfg ps : Table) : get (assemble cfg ps) PROFILES_KEY = some (.table ps) := by
  unfold assemble
  rw [get_set, if_neg (by decide), get_renameHarness_of_ne _ (by decide) (by decide), get_pop, if_neg (by decide), get_pop,
    if_neg (by decide), get_set, if_pos rfl]

theorem version_assemble (cfg ps : Table) : config_version_of (assemble cfg ps) = CONFIG_VERSION := by
  have hget : get (assemble cfg ps) CONFIG_VERSION_KEY = some (.int CONFIG_VERSION) := by
    unfold assemble
    rw [get_set, if_pos rfl]
  unfold config_version_of
  rw [hget]
  rfl

theorem migrate_spec (h : _migrate_v1_to_v2 cfg = .ok out) : ∃ ps, out = assemble cfg ps ∧
    List.Forall₂ (fun item item' => migrateItem item = .ok item') (folded cfg) ps := by
  unfold _migrate_v1_to_v2 at h
  obtain ⟨ps, hps, h⟩ := Checks.bind_ok_iff.1 h
  obtain ⟨_, -, h⟩ := Checks.bind_ok_iff.1 h
  exact ⟨ps, (Except.ok.inj h).symm, Checks.mapM_ok_iff.1 hps⟩

/-- The mappings that are listed for a tier of a profile: those already under `powers`, the
top-level one of the profile's name, and those of its own `power` table in its order. -/
def listed (cfg : Table) (P : Text) (p : Table) (t : Text) : List Toml :=
  (tierOf p t).toList ++ (((powerEntry cfg t P).map Toml.table).toList ++ nestedListed p t)

/-- **What a migrated profile is made of.** -/
structure Made (cfg : Table) (P : Text) (p r : Table) : Prop where
  cli : (¬ Touched cfg P ∧ get r PROFILE_CLI_KEY = (get p PROFILE_CLI_KEY).or ((legacyCli p).map Toml.str)) ∨
    (Touched cfg P ∧ get r PROFILE_CLI_KEY = (get p PROFILE_CLI_KEY).or (some (.str P)))
  tier : ∀ t, tierOf r t = (listed cfg P p t).head?
  default : get p PROFILE_DEFAULT_KEY = none →
    get r PROFILE_DEFAULT_KEY = ((defaultOf cfg P).bind (nestedEntry r)).map Toml.table

theorem Toml.WF.profileOf (hwf : Toml.WF (.table cfg)) (P : Text) : Toml.WF (.table ((profileOf cfg P).getD [])) := by
  unfold Config.profileOf
  cases hprofiles : Config.child cfg PROFILES_KEY with
  | none => exact .table List.nodup_nil fun _ hkx => (List.not_mem_nil hkx).elim
  | some profiles => exact (hwf.child hprofiles).childD P

/-- **Each profile of the migrated tree is made of the entries under its name**, and each name with
a profile or a global entry has one. -/
theorem made_of_migrate (hwf : Toml.WF (.table cfg)) (h : _migrate_v1_to_v2 cfg = .ok out) (P : Text) :
    ((profileOf out P).isSome ↔ (profileOf cfg P).isSome ∨ Touched cfg P) ∧
      ∀ r, profileOf out P = some r → Made cfg P ((profileOf cfg P).getD []) r := by
  obtain ⟨ps, rfl, hps⟩ := migrate_spec h
  have hout : profileOf (assemble cfg ps) P = child ps P := by
    rw [profileOf, child, get_profiles_assemble]
    rfl
  rw [← folded_isSome hwf, hout]
  rcases child_rewritten hps P with ⟨hq, hr⟩ | ⟨q, y, hq, hy, hmigrate⟩
  · rw [hq, hr]
    exact ⟨Iff.rfl, fun r hr => (nomatch hr)⟩
  have hfolded := folded_spec hwf hq
  have hpower : get q "power".toList = get ((profileOf cfg P).getD []) "power".toList :=
    hfolded.rest _ (by decide) (by decide) (by decide)
  have hchild : child q "power".toList = child ((profileOf cfg P).getD []) "power".toList := by
    unfold child
    rw [hpower]
  obtain ⟨r, rfl, hmigrated⟩ := migrated_spec (fun power hp => (hwf.profileOf P).child (hchild ▸ hp)) hmigrate
  have hr : child ps P = some r := child_eq_some.2 hy
  rw [hq, hr]
  refine ⟨Iff.rfl, fun r' heq => ?_⟩
  obtain rfl := Option.some.inj heq
  have hlegacy : legacyCli q = legacyCli ((profileOf cfg P).getD []) := by
    unfold legacyCli
    rw [hfolded.rest _ (by decide) (by decide) (by decide)]
  refine ⟨?_, fun t => ?_, fun hnone => ?_⟩
  · rcases hfolded.cli with ⟨htouched, hcli⟩ | ⟨htouched, hcli⟩
    · exact .inl ⟨htouched, by rw [hmigrated.cli, hcli, hlegacy]⟩
    · refine .inr ⟨htouched, ?_⟩
      rw [hmigrated.cli, hcli]
      cases get ((profileOf cfg P).getD []) PROFILE_CLI_KEY <;> rfl
  · have hnested : nestedListed q t = nestedListed ((profileOf cfg P).getD []) t := by
      unfold nestedListed
      rw [hchild]
    rw [hmigrated.tier, hfolded.tier, hnested, listed, List.head?_append, List.head?_append, Option.head?_toList,
      Option.head?_toList,
      Option.or_assoc]
  · have hdefault : child q PROFILE_DEFAULT_KEY = defaultOf cfg P := by
      unfold child
      rw [hfolded.default, hnone, Option.none_or]
      cases defaultOf cfg P <;> rfl
    rw [hmigrated.default, hdefault]

/-! ## What a migration keeps -/

/-- The mapping that a profile has for a tier and for the CLI it names. -/
def Own (p : Table) (c t : Text) (e : Table) : Prop := legacyCli p = some c ∧ powerEntry p t c = some e

/-- A tier that the claims on a migrated profile account for. -/
def Accounted (cfg : Table) (P t : Text) : Prop :=
  (powerEntry cfg t P).isSome ∨ ∃ p c e, profileOf cfg P = some p ∧ Own p c t e

/-- **A migration that keeps the models of a config**: a profile's own entries under its CLI, the
top-level entries of the backends without a profile, and no other tier; and it is done once. -/
structure Keeps (cfg out : Table) : Prop where
  own : ∀ P p c t e, profileOf cfg P = some p → Own p c t e →
    ∃ r, profileOf out P = some r ∧ get r PROFILE_CLI_KEY = some (.str c) ∧ tierOf r t = some (.table e)
  top_power : ∀ b t e, profileOf cfg b = none → powerEntry cfg t b = some e →
    ∃ r, profileOf out b = some r ∧ tierOf r t = some (.table e)
  top_default : ∀ b e, profileOf cfg b = none → defaultOf cfg b = some e →
    ∃ r, profileOf out b = some r ∧ get r PROFILE_DEFAULT_KEY = some (.table e)
  tiers : ∀ P r t, profileOf out P = some r → (tierOf r t).isSome → Accounted cfg P t
  again : _walk_migrations out (config_version_of out) = .ok out

/-- **The configs that lose nothing.** -/
structure Clean (cfg : Table) : Prop where
  first : ∀ P p c t e, profileOf cfg P = some p → Own p c t e → (listed cfg P p t).head? = some (.table e)
  cli : ∀ P p c t e x, profileOf cfg P = some p → Own p c t e → get p PROFILE_CLI_KEY = some x → x = .str c
  named : ∀ P p c t e, profileOf cfg P = some p → Own p c t e → get p PROFILE_CLI_KEY = none → Touched cfg P → P = c
  tiers : ∀ P p t, profileOf cfg P = some p → listed cfg P p t ≠ [] → Accounted cfg P t
  defaults : ∀ b e, profileOf cfg b = none → defaultOf cfg b = some e →
    (∀ kx ∈ e, kx.1 ∈ MAPPING_KEYS) ∨ Text.strip b = []

/-- A table is not a value in itself. -/
theorem child_ne_self (e : Table) (k : Text) : child e k ≠ some e := by
  intro h
  have hlt := List.sizeOf_lt_of_mem (mem_of_get (child_eq_some.1 h))
  simp only [Prod.mk.sizeOf_spec, Toml.table.sizeOf_spec] at hlt
  omega

/-- A default entry of a backend's new profile stays when the rewrite knows all its keys. -/
theorem nestedEntry_eq_self_iff (hcli : get r PROFILE_CLI_KEY = some (.str b)) :
    nestedEntry r e = some e ↔ (∀ kx ∈ e, kx.1 ∈ MAPPING_KEYS) ∨ Text.strip b = [] := by
  unfold nestedEntry _profile_cli
  rw [hcli]
  by_cases hblank : Text.strip b = []
  · simp [hblank]
  · by_cases hkeys : ∀ kx ∈ e, kx.1 ∈ MAPPING_KEYS
    · have hany : e.any (fun kx => kx.1 ∉ MAPPING_KEYS) = false := by
        rw [List.any_eq_false]
        intro kx hkx
        simpa using hkeys kx hkx
      simp only [if_neg hblank, hany]
      exact iff_of_true rfl (.inl hkeys)
    · have hany : e.any (fun kx => kx.1 ∉ MAPPING_KEYS) = true := by
        rw [List.any_eq_true]
        push Not at hkeys
        obtain ⟨kx, hkx, hnew⟩ := hkeys
        exact ⟨kx, hkx, by simpa using hnew⟩
      have hself := child_ne_self e (Text.lower (Text.strip b))
      simp only [if_neg hblank, hany]
      exact iff_of_false hself fun hor => hor.elim hkeys hblank

section

variable (hwf : Toml.WF (.table cfg)) (h : _migrate_v1_to_v2 cfg = .ok out)

include hwf h

theorem made_of_profile (hp : profileOf cfg P = some p) : ∃ r, profileOf out P = some r ∧ Made cfg P p r := by
  obtain ⟨hsome, hmade⟩ := made_of_migrate hwf h P
  obtain ⟨r, hr⟩ := Option.isSome_iff_exists.1 (hsome.2 (.inl (by rw [hp]; rfl)))
  have hr' := hmade r hr
  rw [hp] at hr'
  exact ⟨r, hr, hr'⟩

theorem made_of_touched (hp : profileOf cfg P = none) (ht : Touched cfg P) :
    ∃ r, profileOf out P = some r ∧ Made cfg P [] r := by
  obtain ⟨hsome, hmade⟩ := made_of_migrate hwf h P
  obtain ⟨r, hr⟩ := Option.isSome_iff_exists.1 (hsome.2 (.inr ht))
  have hr' := hmade r hr
  rw [hp] at hr'
  exact ⟨r, hr, hr'⟩

omit hwf in
theorem walk_again : _walk_migrations out (config_version_of out) = .ok out := by
  obtain ⟨ps, rfl, -⟩ := migrate_spec h
  rw [version_assemble]
  rfl

/-- **The top-level tiers of a backend without a profile always arrive.** -/
theorem top_power_kept (hp : profileOf cfg b = none) (he : powerEntry cfg t b = some e) :
    ∃ r, profileOf out b = some r ∧ tierOf r t = some (.table e) := by
  obtain ⟨r, hr, hmade⟩ := made_of_touched hwf h hp (.inl ⟨t, e, he⟩)
  refine ⟨r, hr, ?_⟩
  rw [hmade.tier, listed, he]
  rfl

theorem top_default_kept_iff (hp : profileOf cfg b = none) (he : defaultOf cfg b = some e) :
    (∃ r, profileOf out b = some r ∧ get r PROFILE_DEFAULT_KEY = some (.table e)) ↔
      (∀ kx ∈ e, kx.1 ∈ MAPPING_KEYS) ∨ Text.strip b = [] := by
  have htouched : Touched cfg b := .inr ⟨e, he⟩
  obtain ⟨r, hr, hmade⟩ := made_of_touched hwf h hp htouched
  have hcli : get r PROFILE_CLI_KEY = some (.str b) := by
    rcases hmade.cli with ⟨hno, -⟩ | ⟨-, hcli⟩
    · exact absurd htouched hno
    · exact hcli
  have hdefault := hmade.default rfl
  rw [he, Option.bind_some] at hdefault
  rw [← nestedEntry_eq_self_iff hcli]
  constructor
  · rintro ⟨r', hr', hget⟩
    obtain rfl := Option.some.inj (hr.symm.trans hr')
    obtain ⟨e', he', heq⟩ := Option.map_eq_some_iff.1 (hdefault.symm.trans hget)
    rw [he', Toml.table.inj heq]
  · intro hself
    exact ⟨r, hr, by rw [hdefault, hself]; rfl⟩

end

/-- **What a migration keeps**: exactly in a config whose own entries stand first for their tier,
under the CLI that their profile gets, does the migration keep every entry it should. -/
theorem migration_keeps_iff (cfg : Document) {out : Table} (h : _migrate_v1_to_v2 cfg.tree = .ok out) :
    Keeps cfg.tree out ↔ Clean cfg.tree := by
  have hwf := cfg.wf
  constructor
  · intro hkeeps
    refine ⟨?_, ?_, ?_, ?_, ?_⟩
    · intro P p c t e hp hown
      obtain ⟨r, hr, -, htier⟩ := hkeeps.own P p c t e hp hown
      obtain ⟨r', hr', hmade⟩ := made_of_profile hwf h hp
      obtain rfl := Option.some.inj (hr.symm.trans hr')
      rw [← hmade.tier]
      exact htier
    · intro P p c t e x hp hown hx
      obtain ⟨r, hr, hcli, -⟩ := hkeeps.own P p c t e hp hown
      obtain ⟨r', hr', hmade⟩ := made_of_profile hwf h hp
      obtain rfl := Option.some.inj (hr.symm.trans hr')
      have hsame : get r PROFILE_CLI_KEY = some x := by
        rcases hmade.cli with ⟨-, hget⟩ | ⟨-, hget⟩ <;> rw [hget, hx] <;> rfl
      exact Option.some.inj (hsame.symm.trans hcli)
    · intro P p c t e hp hown hnone htouched
      obtain ⟨r, hr, hcli, -⟩ := hkeeps.own P p c t e hp hown
      obtain ⟨r', hr', hmade⟩ := made_of_profile hwf h hp
      obtain rfl := Option.some.inj (hr.symm.trans hr')
      rcases hmade.cli with ⟨hno, -⟩ | ⟨-, hget⟩
      · exact absurd htouched hno
      · rw [hnone, Option.none_or] at hget
        exact Toml.str.inj (Option.some.inj (hget.symm.trans hcli))
    · intro P p t hp hlisted
      obtain ⟨r, hr, hmade⟩ := made_of_profile hwf h hp
      refine hkeeps.tiers P r t hr ?_
      rw [hmade.tier, List.isSome_head?]
      simpa using hlisted
    · intro b e hp he
      exact (top_default_kept_iff hwf h hp he).1 (hkeeps.top_default b e hp he)
  · intro hclean
    refine ⟨?_, fun b t e hp he => top_power_kept hwf h hp he, ?_, ?_, walk_again h⟩
    · intro P p c t e hp hown
      obtain ⟨r, hr, hmade⟩ := made_of_profile hwf h hp
      refine ⟨r, hr, ?_, by rw [hmade.tier]; exact hclean.first P p c t e hp hown⟩
      cases hx : get p PROFILE_CLI_KEY with
      | some x =>
        rcases hmade.cli with ⟨-, hget⟩ | ⟨-, hget⟩ <;> rw [hget, hx, hclean.cli P p c t e x hp hown hx] <;> rfl
      | none =>
        rcases hmade.cli with ⟨-, hget⟩ | ⟨htouched, hget⟩
        · rw [hget, hx, hown.1]
          rfl
        · rw [hget, hx, ← hclean.named P p c t e hp hown hx htouched]
          rfl
    · intro b e hp he
      exact (top_default_kept_iff hwf h hp he).2 (hclean.defaults b e hp he)
    · intro P r t hr hsome
      have hmade := (made_of_migrate hwf h P).2 r hr
      rw [hmade.tier] at hsome
      cases hp : profileOf cfg.tree P with
      | some p =>
        refine hclean.tiers P p t hp fun hnil => ?_
        rw [hp, Option.getD_some, hnil] at hsome
        cases hsome
      | none =>
        -- a new profile lists the top-level entries alone
        rw [hp, Option.getD_none] at hsome
        refine .inl ?_
        cases he : powerEntry cfg.tree t P with
        | some e => rfl
        | none =>
          rw [listed, he] at hsome
          cases hsome

/-- A mapping to a model. -/
def modelTable (model : String) : Table := [("model".toList, .str model.toList)]

theorem wf_singleton (k : Text) (h : Toml.WF x) : Toml.WF (.table [(k, x)]) :=
  .table (List.nodup_singleton _) fun kx hkx => by rw [List.mem_singleton.1 hkx]; exact h

theorem wf_pair {y : Toml} (hne : k ≠ k') (h : Toml.WF x) (h' : Toml.WF y) : Toml.WF (.table [(k, x), (k', y)]) := by
  refine .table ?_ fun kx hkx => ?_
  · exact List.nodup_cons.2 ⟨fun hmem => hne (List.mem_singleton.1 hmem), List.nodup_singleton _⟩
  · rcases List.mem_cons.1 hkx with rfl | hkx
    · exact h
    · rw [List.mem_singleton.1 hkx]
      exact h'

/-- A profile for Claude, with the tier `high` of the given backends. -/
def claudeProfile (by_backend : Table) : Table :=
  [("default_cli".toList, .str "claude".toList), ("power".toList, .table [("high".toList, .table by_backend)])]

theorem claudeProfile_wf {by_backend : Table} (h : Toml.WF (.table by_backend)) :
    Toml.WF (.table (claudeProfile by_backend)) :=
  wf_pair (by decide) (.str _) (wf_singleton _ h)

/-- A config with one such profile, and a default model for Codex. -/
def home (by_backend : Table) (h : Toml.WF (.table by_backend)) : Document where
  tree := [(PROFILES_KEY, .table [("work".toList, .table (claudeProfile by_backend))]),
    ("default".toList, .table [("codex".toList, .table (modelTable "gpt-5"))])]
  wf := wf_pair (by decide) (wf_singleton _ (claudeProfile_wf h)) (wf_singleton _ (wf_singleton _ (.str _)))

/-- The tier `high` of Claude alone. -/
def soloTier : Table := [("claude".toList, .table (modelTable "opus"))]

/-- The tier `high` of Codex, then of Claude. -/
def mixedTier : Table := [("codex".toList, .table (modelTable "gpt-5")), ("claude".toList, .table (modelTable "opus"))]

def soloHome : Document := home soloTier (wf_singleton _ (wf_singleton _ (.str _)))

def mixedHome : Document :=
  home mixedTier (wf_pair (by decide) (wf_singleton _ (.str _)) (wf_singleton _ (.str _)))

theorem get_singleton_eq_some {y : Toml} : get [(k, x)] k' = some y ↔ k = k' ∧ x = y := by
  rw [get_cons, get_nil]
  split
  · rename_i heq
    have hk : k = k' := heq
    simp [hk]
  · rename_i hne
    have hk : k ≠ k' := hne
    simp [hk]

theorem child_singleton_eq_some : child [(k, x)] k' = some d ↔ k = k' ∧ x = .table d := by
  rw [child_eq_some, get_singleton_eq_some]

theorem own_soloTier (h : Own (claudeProfile soloTier) c t e) :
    c = "claude".toList ∧ t = "high".toList ∧ e = modelTable "opus" := by
  obtain ⟨hc, he⟩ := h
  have hcli : legacyCli (claudeProfile soloTier) = some "claude".toList := rfl
  have hpower : child (claudeProfile soloTier) "power".toList = some [("high".toList, .table soloTier)] := rfl
  obtain rfl := Option.some.inj (hcli.symm.trans hc)
  rw [powerEntry, hpower, Option.bind_some] at he
  obtain ⟨by_backend, ht, he⟩ := Option.bind_eq_some_iff.1 he
  obtain ⟨rfl, hb⟩ := child_singleton_eq_some.1 ht
  obtain rfl := Toml.table.inj hb
  obtain ⟨-, he⟩ := child_singleton_eq_some.1 he
  exact ⟨rfl, rfl, (Toml.table.inj he).symm⟩

theorem clean_soloHome : Clean soloHome.tree := by
  have hprofile : ∀ P p, profileOf soloHome.tree P = some p → P = "work".toList ∧ p = claudeProfile soloTier := by
    intro P p hp
    obtain ⟨rfl, heq⟩ := child_singleton_eq_some.1 hp
    exact ⟨rfl, (Toml.table.inj heq).symm⟩
  refine ⟨?_, ?_, ?_, ?_, ?_⟩
  · intro P p c t e hp ho
    obtain ⟨rfl, rfl⟩ := hprofile P p hp
    obtain ⟨rfl, rfl, rfl⟩ := own_soloTier ho
    rfl
  · intro P p c t e x hp _ hx
    obtain ⟨rfl, rfl⟩ := hprofile P p hp
    cases hx
  · intro P p c t e hp _ _ htouched
    obtain ⟨rfl, rfl⟩ := hprofile P p hp
    rcases htouched with ⟨t, e, he⟩ | ⟨e, he⟩ <;> cases he
  · intro P p t hp hlisted
    obtain ⟨rfl, rfl⟩ := hprofile P p hp
    refine .inr ⟨_, "claude".toList, modelTable "opus", rfl, rfl, ?_⟩
    by_cases ht : "high".toList = t
    · rw [← ht]
      rfl
    · refine absurd ?_ hlisted
      have hnone : child [("high".toList, Toml.table soloTier)] t = none := by
        rw [child, get_cons, if_neg ht]
        rfl
      have hpower : child (claudeProfile soloTier) "power".toList = some [("high".toList, .table soloTier)] := rfl
      have hlist : nestedListed (claudeProfile soloTier) t = [] := by
        rw [nestedListed, hpower, Option.bind_some, hnone]
        rfl
      rw [listed, hlist]
      rfl
  · intro b e _ he
    have hdefault : child soloHome.tree "default".toList = some [("codex".toList, .table (modelTable "gpt-5"))] := rfl
    rw [defaultOf, hdefault, Option.bind_some] at he
    obtain ⟨y, hy, he⟩ := Option.bind_eq_some_iff.1 he
    obtain ⟨-, rfl⟩ := get_singleton_eq_some.1 hy
    obtain rfl := Option.some.inj he
    exact .inl fun kx hkx => by rw [List.mem_singleton.1 hkx]; decide

/-- Of a profile with one backend all is kept. -/
theorem migration_keeps_solo : ∃ out, _migrate_v1_to_v2 soloHome.tree = .ok out ∧ Keeps soloHome.tree out :=
  ⟨_, rfl, (migration_keeps_iff soloHome rfl).2 clean_soloHome⟩

/-- **The backend that a tier lists first wins**: a profile for Claude comes out with the model
that it has for Codex. -/
theorem first_backend_wins : ∃ out, _migrate_v1_to_v2 mixedHome.tree = .ok out ∧ ¬ Keeps mixedHome.tree out := by
  refine ⟨_, rfl, fun hkeeps => ?_⟩
  obtain ⟨r, hr, -, htier⟩ :=
    hkeeps.own "work".toList (claudeProfile mixedTier) "claude".toList "high".toList (modelTable "opus") rfl ⟨rfl, rfl⟩
  obtain rfl := Option.some.inj (Eq.trans (Eq.symm hr) rfl)
  have hmodel : modelTable "gpt-5" = modelTable "opus" := Toml.table.inj (Option.some.inj htier)
  have hname : "gpt-5".toList = "opus".toList := Toml.str.inj (Prod.mk.inj (List.cons.inj hmodel).1).2
  exact absurd hname (by decide)

end Stablemate.Config
