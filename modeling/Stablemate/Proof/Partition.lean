import Stablemate.Lib.Checks
import Stablemate.Model.Partition
import Stablemate.Proof.Text

/-!
# What a partition that the gate accepts is emitted as

* `validate_ok_iff`: the gate gives a verdict on everything that is read and hashed.
* `accepted_spec`: what the gate has seen of the clusters it accepts.
* `Files`: **what `file_proposals` leaves: every proposal has the record that the register holds for its summary**.
* `partition_iff`: an accepted partition is emitted whole, and once, just when its titles tell its clusters apart, no
  held record states other units, the ids of the units agree, and the orders can be compared.
-/

namespace Stablemate.Survey

open PyJson (Key)
open Checks (bind_ok_iff mapM_ok_iff)

/-! ## Words -/

section Words

variable {p : Char → Bool} {text : Text} {c : Char}

theorem not_of_mem_splitOnP : ∀ {text w : Text}, w ∈ text.splitOnP p → ∀ c ∈ w, p c = false
  | [], w, hw, c, hc => by
    rw [List.splitOnP_nil, List.mem_singleton] at hw
    subst hw
    cases hc
  | x :: xs, w, hw, c, hc => by
    rw [List.splitOnP_cons_eq_if_modifyHead] at hw
    split at hw
    · rcases List.mem_cons.1 hw with rfl | hw
      · cases hc
      · exact not_of_mem_splitOnP hw c hc
    · rename_i hx
      obtain ⟨first, pieces, hpieces⟩ := List.exists_cons_of_ne_nil (List.splitOnP_ne_nil p xs)
      rw [hpieces, List.modifyHead_cons] at hw
      rcases List.mem_cons.1 hw with rfl | hw
      · rcases List.mem_cons.1 hc with rfl | hc
        · simpa using hx
        · exact not_of_mem_splitOnP (hpieces ▸ List.mem_cons_self) c hc
      · exact not_of_mem_splitOnP (hpieces ▸ List.mem_cons_of_mem _ hw) c hc

theorem exists_piece (hp : p c = false) : ∀ {text : Text}, c ∈ text → ∃ w ∈ text.splitOnP p, w ≠ []
  | x :: xs, hc => by
    rw [List.splitOnP_cons_eq_if_modifyHead]
    split
    · rename_i hx
      rcases List.mem_cons.1 hc with rfl | hc
      · rw [hp] at hx
        cases hx
      · obtain ⟨w, hw, hne⟩ := exists_piece hp hc
        exact ⟨w, List.mem_cons_of_mem _ hw, hne⟩
    · obtain ⟨first, pieces, hpieces⟩ := List.exists_cons_of_ne_nil (List.splitOnP_ne_nil p xs)
      rw [hpieces, List.modifyHead_cons]
      exact ⟨x :: first, List.mem_cons_self, by simp⟩

/-- Joined words begin and end with what is in the words. -/
theorem ends_intercalate (sep : Text) : ∀ {ws : List Text}, ws ≠ [] → (∀ w ∈ ws, w ≠ [] ∧ ∀ c ∈ w, p c = false) →
    ∃ c rest body d, sep.intercalate ws = c :: rest ∧ p c = false ∧ sep.intercalate ws = body ++ [d] ∧ p d = false
  | [], hne, _ => absurd rfl hne
  | [w], _, hws => by
    obtain ⟨hw, hclear⟩ := hws w List.mem_cons_self
    obtain ⟨c, rest, hfirst⟩ := List.exists_cons_of_ne_nil hw
    obtain ⟨body, d, hlast⟩ := (List.eq_nil_or_concat w).resolve_left hw
    have hlast : w = body ++ [d] := by rw [hlast, List.concat_eq_append]
    rw [List.intercalate_singleton]
    exact ⟨c, rest, body, d, hfirst, hclear c (hfirst ▸ List.mem_cons_self), hlast,
      hclear d (hlast ▸ List.mem_append_right body List.mem_cons_self)⟩
  | w :: w' :: ws, _, hws => by
    obtain ⟨hw, hclear⟩ := hws w List.mem_cons_self
    obtain ⟨c, rest, hfirst⟩ := List.exists_cons_of_ne_nil hw
    obtain ⟨-, -, body, d, -, -, hlast, hd⟩ :=
      ends_intercalate sep (List.cons_ne_nil w' ws) fun w hin => hws w (List.mem_cons_of_mem _ hin)
    rw [List.intercalate_cons_of_ne_nil (List.cons_ne_nil w' ws)]
    refine ⟨c, rest ++ sep ++ sep.intercalate (w' :: ws), w ++ sep ++ body, d, ?_, ?_, ?_, hd⟩
    · rw [hfirst]
      simp
    · exact hclear c (hfirst ▸ List.mem_cons_self)
    · rw [hlast]
      simp

open Gates (squeezed)

theorem mem_words {w : Text} (hw : w ∈ (text.splitOnP Text.isSpace).filter (· ≠ [])) :
    w ≠ [] ∧ ∀ c ∈ w, Text.isSpace c = false := by
  obtain ⟨hin, hne⟩ := List.mem_filter.1 hw
  exact ⟨by simpa using hne, not_of_mem_splitOnP hin⟩

theorem strip_squeezed (text : Text) : Text.strip (squeezed text) = squeezed text := by
  unfold squeezed
  by_cases hnil : (text.splitOnP Text.isSpace).filter (· ≠ []) = []
  · rw [hnil]
    rfl
  · obtain ⟨c, rest, body, d, hfirst, hc, hlast, hd⟩ := ends_intercalate [' '] hnil fun w hw => mem_words hw
    exact Text.strip_of_ends hfirst hc hlast hd

theorem squeezed_ne_nil (h : Text.strip text ≠ []) : squeezed text ≠ [] := by
  obtain hnil | ⟨c, rest, -, -, hfirst, hc, -⟩ := Text.strip_eq text
  · exact absurd hnil h
  have hmem : c ∈ text := Text.mem_strip (hfirst ▸ List.mem_cons_self)
  obtain ⟨w, hw, hne⟩ := exists_piece hc hmem
  have hin : w ∈ (text.splitOnP Text.isSpace).filter (· ≠ []) := List.mem_filter.2 ⟨hw, by simpa using hne⟩
  obtain ⟨c, rest, -, -, hfirst, -⟩ := ends_intercalate [' '] (List.ne_nil_of_mem hin) fun w hw => mem_words hw
  unfold squeezed
  rw [hfirst]
  exact List.cons_ne_nil c rest

/-- A squeezed text is one line. -/
theorem not_mem_squeezed (hspace : Text.isSpace c = true) (hne : c ≠ ' ') : c ∉ squeezed text := by
  intro hmem
  rcases mem_intercalate hmem with hsep | ⟨w, hw, hc⟩
  · exact hne (List.mem_singleton.1 hsep)
  · rw [(mem_words hw).2 c hc] at hspace
    cases hspace

theorem isSegment_segment {value fallback : Text} (hfallback : isSegment fallback = true) :
    isSegment (segment value fallback) = true := by
  unfold segment
  set words := ((Text.lower value).splitOnP fun c => !isSlugChar c).filter (· ≠ []) with hwords
  dsimp only
  split
  · exact hfallback
  · rename_i hne
    have hclear : ∀ w ∈ words, w ≠ [] ∧ ∀ c ∈ w, (!isSlugChar c) = false := fun w hw =>
      ⟨by simpa using (List.mem_filter.1 hw).2, not_of_mem_splitOnP (List.mem_filter.1 hw).1⟩
    have hnil : words ≠ [] := by
      intro hnil
      rw [hnil] at hne
      exact hne rfl
    obtain ⟨c, rest, -, -, hfirst, hc, -⟩ := ends_intercalate ['-'] hnil hclear
    rw [hfirst]
    have hrest : ∀ d ∈ rest, isSlugChar d = true ∨ d = '-' := by
      intro d hd
      have hmem : d ∈ ['-'].intercalate words := hfirst ▸ List.mem_cons_of_mem c hd
      rcases mem_intercalate hmem with hsep | ⟨w, hw, hd⟩
      · exact .inr (List.mem_singleton.1 hsep)
      · exact .inl (by simpa using (hclear w hw).2 d hd)
    simp only [isSegment, Bool.and_eq_true, List.all_eq_true, Bool.or_eq_true, decide_eq_true_eq]
    exact ⟨by simpa using hc, hrest⟩

end Words

section Partition

variable {W : World} {statuses : List (Text × Json)} {clusters : List Fields} {units : List Json.Fields} {c : Fields}
variable {partition : File} {inventory : Option Json}

/-! ## The gate -/

/-- What the gate has seen of a cluster without errors. -/
structure Fine (W : World) (statuses : List (Text × Json)) (c : Fields) : Prop where
  slug : isSlug (W.orEmpty c "id") = true
  title : Text.strip (W.orEmpty c "title") ≠ []
  some : W.listed c ≠ []
  assessed : ∀ uid ∈ W.listed c, (Dict.get statuses uid).any isAssessed = true

theorem unitErrors_eq_nil {i : ℕ} {cid uid : Text} (h : unitErrors W statuses i cid uid = []) :
    (Dict.get statuses uid).any isAssessed = true := by
  unfold unitErrors at h
  split at h
  · cases h
  · rename_i status hstatus
    split at h
    · rename_i hassessed
      rw [hstatus]
      exact hassessed
    · cases h

theorem fine_of_clusterErrors {i : ℕ} {seen : List Text} (h : clusterErrors W statuses i seen c = []) :
    idErrors i seen (W.orEmpty c "id") = [] ∧ Fine W statuses c := by
  simp only [clusterErrors, List.append_eq_nil_iff] at h
  obtain ⟨⟨⟨⟨hid, htitle⟩, -⟩, -⟩, hunits⟩ := h
  refine ⟨hid, ?_, ?_, ?_, ?_⟩
  · by_contra hslug
    unfold idErrors at hid
    rw [if_pos (by simpa using hslug)] at hid
    cases hid
  · intro hblank
    rw [if_pos hblank] at htitle
    cases htitle
  · intro hnone
    rw [if_pos hnone] at hunits
    cases hunits
  · intro uid huid
    split at hunits
    · cases hunits
    · exact unitErrors_eq_nil (List.flatMap_eq_nil_iff.1 hunits uid huid)

theorem not_mem_of_idErrors {i : ℕ} {seen : List Text} {cid : Text} (h : idErrors i seen cid = []) : cid ∉ seen := by
  unfold idErrors at h
  split at h
  · cases h
  · split at h
    · cases h
    · rename_i hseen
      simpa using hseen

/-- What one cluster does to the gate where no error comes of it. -/
theorem checkCluster_clean {i : ℕ} {gate gate' : Gate} {x : Yaml} (h : checkCluster W statuses i gate x = .ok gate')
    (herrors : gate'.errors = []) : gate.errors = [] ∧ ∃ c, x = .dict c ∧ Fine W statuses c ∧
      W.orEmpty c "id" ∉ gate.seen_ids ∧ gate'.seen_ids = gate.seen_ids ++ [W.orEmpty c "id"] ∧
      gate'.clustered_units = gate.clustered_units ++ W.listed c := by
  unfold checkCluster at h
  split at h
  · rename_i c
    split at h
    · cases h
    · obtain rfl := Except.ok.inj h
      obtain ⟨hold, hnew⟩ := List.append_eq_nil_iff.1 herrors
      obtain ⟨hid, hfine⟩ := fine_of_clusterErrors hnew
      refine ⟨hold, c, rfl, hfine, not_mem_of_idErrors hid, if_pos hid, ?_⟩
      exact congrArg _ (List.filter_eq_self.2 hfine.assessed)
  · obtain rfl := Except.ok.inj h
    exact absurd (List.append_eq_nil_iff.1 herrors).2 (List.cons_ne_nil _ _)

/-- **What the gate has seen after clusters that no error comes of.** -/
theorem checkFrom_clean : ∀ {xs : List Yaml} {i : ℕ} {gate out : Gate}, checkFrom W statuses i gate xs = .ok out →
    out.errors = [] → (gate.errors = [] → gate.seen_ids.Nodup) → gate.errors = [] ∧ ∃ clusters : List Fields,
      xs = clusters.map Yaml.dict ∧ (∀ c ∈ clusters, Fine W statuses c) ∧
      out.seen_ids = gate.seen_ids ++ clusters.map (fun c => W.orEmpty c "id") ∧ out.seen_ids.Nodup ∧
      out.clustered_units = gate.clustered_units ++ clusters.flatMap W.listed := by
  intro xs
  induction xs with
  | nil =>
    intro i gate out h herrors hnodup
    obtain rfl := Except.ok.inj h
    exact ⟨herrors, [], rfl, by simp, by simp, hnodup herrors, by simp⟩
  | cons x xs ih =>
    intro i gate out h herrors hnodup
    obtain ⟨gate', hstep, hrest⟩ := bind_ok_iff.1 h
    have hnodup' : gate'.errors = [] → gate'.seen_ids.Nodup := by
      intro hclean
      obtain ⟨hold, c, -, -, hnew, hseen, -⟩ := checkCluster_clean hstep hclean
      rw [hseen]
      refine List.nodup_append.2 ⟨hnodup hold, List.nodup_singleton _, fun a ha b hb => ?_⟩
      rintro rfl
      exact hnew (List.mem_singleton.1 hb ▸ ha)
    obtain ⟨hclean, clusters, rfl, hfine, hseen', hout, hunits'⟩ := ih hrest herrors hnodup'
    obtain ⟨hold, c, rfl, hc, -, hseen, hunits⟩ := checkCluster_clean hstep hclean
    refine ⟨hold, c :: clusters, rfl, ?_, ?_, hout, ?_⟩
    · intro d hd
      rcases List.mem_cons.1 hd with rfl | hd
      · exact hc
      · exact hfine d hd
    · rw [hseen', hseen, List.map_cons, List.append_assoc, List.singleton_append]
    · rw [hunits', hunits, List.flatMap_cons, List.append_assoc]

theorem clusterDicts_map (clusters : List Fields) : clusterDicts (clusters.map Yaml.dict) = clusters := by
  induction clusters with
  | nil => rfl
  | cons c clusters ih => exact congrArg (c :: ·) ih

/-- What the gate has seen of the clusters it accepts. -/
structure Accepted (W : World) (statuses : List (Text × Json)) (clusters : List Fields) : Prop where
  fine : ∀ c ∈ clusters, Fine W statuses c
  ids : (clusters.map fun c => W.orEmpty c "id").Nodup
  covered : ∀ uid, (Dict.get statuses uid).any isAssessed = true → ∃ c ∈ clusters, uid ∈ W.listed c

/-- Where no assessed unit is left over, each is in a cluster. -/
theorem mem_of_orphans {listed : List Text} (h : orphans statuses listed = []) {uid : Text}
    (huid : (Dict.get statuses uid).any isAssessed = true) : uid ∈ listed := by
  by_contra hnot
  cases hget : Dict.get statuses uid with
  | none =>
    rw [hget] at huid
    cases huid
  | some status =>
    rw [hget] at huid
    have hrow : (uid, status) ∈ statuses.filter fun row => isAssessed row.2 && !listed.contains row.1 := by
      refine List.mem_filter.2 ⟨Dict.mem_of_get hget, ?_⟩
      have huid : isAssessed status = true := huid
      simp [huid, hnot]
    have horphan : uid ∈ orphans statuses listed :=
      (List.mem_insertionSort (· ≤ ·)).2 (List.mem_map_of_mem hrow)
    rw [h] at horphan
    exact List.not_mem_nil horphan

theorem checkClusters_accepted {xs : List Yaml} {check : PartitionCheck} (h : checkClusters W statuses xs = .ok check)
    (hok : check.partition_ok = true) : ∃ clusters, xs = clusters.map Yaml.dict ∧ Accepted W statuses clusters := by
  obtain ⟨gate, hgate, hcheck⟩ := bind_ok_iff.1 h
  obtain rfl := Except.ok.inj hcheck
  split at hok
  · rename_i hnone
    obtain ⟨herrors, hleft⟩ := List.append_eq_nil_iff.1 hnone
    obtain ⟨-, clusters, rfl, hfine, hseen, hnodup, hunits⟩ := checkFrom_clean hgate herrors fun _ => List.nodup_nil
    refine ⟨clusters, rfl, hfine, ?_, fun uid huid => ?_⟩
    · rw [hseen] at hnodup
      exact hnodup
    · have hmem := mem_of_orphans (List.map_eq_nil_iff.1 hleft) huid
      rw [hunits] at hmem
      exact List.mem_flatMap.1 hmem
  · cases hok

/-- An inventory whose units a `for` takes. -/
def Listing (json : Json) : Prop :=
  ∃ kvs, json = .obj kvs ∧ ∀ w, Json.get kvs "units".toList = .word w → Json.truthy (.word w) = false

/-- What the gate and the emitter take of an inventory. -/
def unitsOf (kvs : Json.Fields) : Json :=
  if Json.truthy (Json.get kvs "units".toList) then Json.get kvs "units".toList else .arr []

theorem unitItems_ok_iff (kvs : Json.Fields) : (∃ items, unitItems (unitsOf kvs) = .ok items) ↔ Listing (.obj kvs) := by
  unfold unitsOf
  constructor
  · rintro ⟨items, hitems⟩
    refine ⟨kvs, rfl, fun w hw => ?_⟩
    by_contra htrue
    rw [hw, if_pos (by simpa using htrue)] at hitems
    cases hitems
  · rintro ⟨kvs', heq, hword⟩
    obtain rfl := Json.obj.inj heq
    split
    · rename_i htrue
      cases hunits : Json.get kvs "units".toList with
      | word w =>
        rw [hunits, hword w hunits] at htrue
        cases htrue
      | str s => exact ⟨_, rfl⟩
      | arr xs => exact ⟨_, rfl⟩
      | obj kvs => exact ⟨_, rfl⟩
    · exact ⟨[], rfl⟩

/-- The units that are no list are none of them a unit. -/
theorem unitsIn_eq {kvs : Json.Fields} {items : List Json} (h : unitItems (unitsOf kvs) = .ok items) :
    unitDicts items = unitsIn (some (.obj kvs)) := by
  have hin : unitsIn (some (.obj kvs)) =
      unitDicts ((unitItems (Json.get kvs "units".toList)).toOption.getD []) := rfl
  rw [hin]
  unfold unitsOf at h
  split at h
  · rw [h]
    rfl
  · rename_i hfalse
    obtain rfl := Except.ok.inj h
    cases hunits : Json.get kvs "units".toList with
    | word w => rfl
    | str s =>
      rw [hunits] at hfalse
      have hnil : s = [] := by simpa [Json.truthy] using hfalse
      subst hnil
      rfl
    | arr xs =>
      rw [hunits] at hfalse
      have hnil : xs = [] := by simpa [Json.truthy] using hfalse
      subst hnil
      rfl
    | obj fields =>
      rw [hunits] at hfalse
      have hnil : fields = [] := by simpa [Json.truthy] using hfalse
      subst hnil
      rfl

/-- **The gate accepts only a partition with clusters it has seen through.** -/
theorem accepted_spec {check : PartitionCheck} (h : validate_partition W partition inventory = .ok check)
    (hok : check.partition_ok = true) :
    ∃ part kvs items, partition = .value part ∧ inventory = some (.obj kvs) ∧ unitItems (unitsOf kvs) = .ok items ∧
      clustersOf part = some ((clustersIn partition).map Yaml.dict) ∧
      Accepted W (unit_status W (unitsIn inventory)) (clustersIn partition) := by
  cases partition with
  | missing =>
    obtain rfl := Except.ok.inj h
    cases hok
  | raises => cases h
  | malformed exc =>
    obtain rfl := Except.ok.inj h
    cases hok
  | value part =>
    cases inventory with
    | none =>
      obtain rfl := Except.ok.inj h
      cases hok
    | some json =>
      obtain ⟨units, hunits, h⟩ := bind_ok_iff.1 h
      cases json with
      | word w => cases hunits
      | str s => cases hunits
      | arr xs => cases hunits
      | obj kvs =>
        obtain rfl := Except.ok.inj hunits
        obtain ⟨items, hitems, h⟩ := bind_ok_iff.1 h
        have hitems : unitItems (unitsOf kvs) = .ok items := hitems
        cases hclusters : clustersOf part with
        | none =>
          rw [hclusters] at h
          obtain rfl := Except.ok.inj h
          cases hok
        | some xs =>
          rw [hclusters] at h
          obtain ⟨clusters, rfl, haccepted⟩ := checkClusters_accepted h hok
          have hin : clustersIn (.value part) = clusters := by
            show (clustersOf part).elim [] clusterDicts = clusters
            rw [hclusters]
            exact clusterDicts_map clusters
          rw [unitsIn_eq hitems] at haccepted
          rw [hin]
          exact ⟨part, kvs, items, rfl, rfl, hitems, hclusters, haccepted⟩

/-! ## The verdict -/

theorem checkCluster_ok_iff (W : World) (statuses : List (Text × Json)) (i : ℕ) (gate : Gate) (x : Yaml) :
    (∃ out, checkCluster W statuses i gate x = .ok out) ↔ ∀ c ∈ clusterDicts [x], hashable (get c "strategy") = true := by
  cases x with
  | dict c =>
    show (∃ out, checkCluster W statuses i gate (.dict c) = .ok out) ↔ ∀ d ∈ [c], _
    rw [List.forall_mem_singleton]
    cases hhash : hashable (get c "strategy") with
    | false => simp [checkCluster, hhash]
    | true =>
      refine ⟨fun _ => rfl, fun _ => ?_⟩
      unfold checkCluster
      dsimp only
      rw [hhash]
      exact ⟨_, rfl⟩
  | _ => exact ⟨fun _ c hc => absurd hc List.not_mem_nil, fun _ => ⟨_, rfl⟩⟩

/-- The loop raises at a strategy that has no hash, and only there. -/
theorem checkFrom_ok_iff (W : World) (statuses : List (Text × Json)) : ∀ (xs : List Yaml) (i : ℕ) (gate : Gate),
    (∃ out, checkFrom W statuses i gate xs = .ok out) ↔ ∀ c ∈ clusterDicts xs, hashable (get c "strategy") = true := by
  intro xs
  induction xs with
  | nil => exact fun i gate => ⟨fun _ c hc => absurd hc List.not_mem_nil, fun _ => ⟨gate, rfl⟩⟩
  | cons x xs ih =>
    intro i gate
    have hdicts : clusterDicts (x :: xs) = clusterDicts [x] ++ clusterDicts xs := by
      rw [clusterDicts, clusterDicts, clusterDicts, ← List.filterMap_append]
      rfl
    rw [hdicts, List.forall_mem_append, ← checkCluster_ok_iff W statuses i gate]
    constructor
    · rintro ⟨out, h⟩
      obtain ⟨gate', hstep, hrest⟩ := bind_ok_iff.1 h
      exact ⟨⟨gate', hstep⟩, (ih _ _).1 ⟨out, hrest⟩⟩
    · rintro ⟨⟨gate', hstep⟩, hrest⟩
      obtain ⟨out, hout⟩ := (ih _ _).2 hrest
      exact ⟨out, bind_ok_iff.2 ⟨gate', hstep, hout⟩⟩

/-- What the gate can read. -/
structure Readable (partition : File) (inventory : Option Json) : Prop where
  decodes : partition ≠ .raises
  lists : ∀ part json, partition = .value part → inventory = some json → Listing json
  hashes : inventory ≠ none → ∀ c ∈ clustersIn partition, hashable (get c "strategy") = true

/-- **The gate gives a verdict on what it can read, and on nothing else.** -/
theorem validate_ok_iff : (∃ check, validate_partition W partition inventory = .ok check) ↔ Readable partition inventory := by
  cases partition with
  | missing => exact ⟨fun _ => ⟨by simp, by simp, by simp [clustersIn]⟩, fun _ => ⟨_, rfl⟩⟩
  | raises =>
    refine ⟨?_, fun h => absurd rfl h.decodes⟩
    rintro ⟨check, h⟩
    cases h
  | malformed exc => exact ⟨fun _ => ⟨by simp, by simp, by simp [clustersIn]⟩, fun _ => ⟨_, rfl⟩⟩
  | value part =>
    cases inventory with
    | none => exact ⟨fun _ => ⟨by simp, by simp, by simp⟩, fun _ => ⟨_, rfl⟩⟩
    | some json =>
      constructor
      · rintro ⟨check, h⟩
        obtain ⟨units, hunits, h⟩ := bind_ok_iff.1 h
        cases json with
        | word w => cases hunits
        | str s => cases hunits
        | arr xs => cases hunits
        | obj kvs =>
          obtain rfl := Except.ok.inj hunits
          obtain ⟨items, hitems, h⟩ := bind_ok_iff.1 h
          refine ⟨by simp, ?_, fun _ => ?_⟩
          · intro part' json' _ hjson
            obtain rfl := Option.some.inj hjson
            exact (unitItems_ok_iff kvs).1 ⟨items, hitems⟩
          · show ∀ c ∈ (clustersOf part).elim [] clusterDicts, hashable (get c "strategy") = true
            cases hclusters : clustersOf part with
            | none => exact fun c hc => absurd hc List.not_mem_nil
            | some xs =>
              rw [hclusters] at h
              obtain ⟨gate, hgate, -⟩ := bind_ok_iff.1 h
              exact (checkFrom_ok_iff _ _ _ _ _).1 ⟨gate, hgate⟩
      · intro h
        obtain ⟨kvs, rfl, hword⟩ := h.lists part json rfl rfl
        obtain ⟨items, hitems⟩ := (unitItems_ok_iff kvs).2 ⟨kvs, rfl, hword⟩
        have hhash : ∀ c ∈ (clustersOf part).elim [] clusterDicts, hashable (get c "strategy") = true :=
          h.hashes (Option.some_ne_none _)
        refine Exists.imp (fun check hcheck =>
          bind_ok_iff.2 ⟨some (unitsOf kvs), rfl, bind_ok_iff.2 ⟨items, hitems, hcheck⟩⟩) ?_
        cases hclusters : clustersOf part with
        | none => exact ⟨_, rfl⟩
        | some xs =>
          rw [hclusters] at hhash
          obtain ⟨gate, hgate⟩ := (checkFrom_ok_iff W (unit_status W (unitDicts items)) _ 0 {}).2 hhash
          exact ⟨_, bind_ok_iff.2 ⟨gate, hgate, rfl⟩⟩

/-! ## Filing -/

variable {reg : Register} {proposal : Proposal}

/-- That the register takes every filing. -/
structure Takes (W : World) (reg : Register) : Prop where
  repo : isSegment W.repo = true
  path_safe : ∀ n, isId (W.mint n) = true
  apart : Function.Injective W.mint
  free : ∀ n, W.taken (W.mint n) = false
  fresh : ∀ record ∈ reg.records, ∀ n, reg.minted ≤ n → record.id ≠ W.mint n

/-- A summary of one line without white space at its ends. -/
structure OneLine (summary : Text) : Prop where
  stripped : Text.strip summary = summary
  some : summary ≠ []
  newline : '\n' ∉ summary
  cr : '\r' ∉ summary

/-- **Where the register takes every filing, a record is shelved with its own id.** -/
theorem file_record_takes (htakes : Takes W reg) (hline : OneLine proposal.summary) : ∃ shelved,
    file_record W reg proposal = .ok shelved ∧ shelved.minted = reg.minted + 1 ∧
      shelved.records = reg.records.orderedInsert (fun a b => Record.le a b = true) (W.record reg proposal) ∧
      Takes W shelved := by
  have hcomplaint : complaint (W.record reg proposal).id (W.record reg proposal).repo (W.record reg proposal).area
      proposal.summary = none := by
    have hid : isId (W.record reg proposal).id = true := htakes.path_safe _
    have hrepo : isSegment (W.record reg proposal).repo = true := htakes.repo
    have harea : isSegment (W.record reg proposal).area = true := isSegment_segment (by decide)
    have hsummary : ¬(Text.strip proposal.summary = [] ∨ '\n' ∈ proposal.summary ∨ '\r' ∈ proposal.summary) := by
      rw [hline.stripped]
      rintro (h | h | h)
      · exact hline.some h
      · exact hline.newline h
      · exact hline.cr h
    unfold complaint
    rw [hid, hrepo, harea, if_neg (by simp), if_neg (by simp), if_neg (by simp), if_neg hsummary]
  have hnew : (W.record reg proposal).id ∉ reg.records.map (·.id) := by
    intro hmem
    obtain ⟨record, hrecord, heq⟩ := List.mem_map.1 hmem
    exact htakes.fresh record hrecord reg.minted (Nat.le_refl _) heq
  have hfree : ¬W.taken (W.record reg proposal).id = true := by
    have hfree : W.taken (W.record reg proposal).id = false := htakes.free _
    simp [hfree]
  unfold file_record
  dsimp only
  split
  · rename_i msg hmsg
    rw [hcomplaint] at hmsg
    cases hmsg
  · rw [dif_neg hnew, if_neg hfree]
    refine ⟨_, rfl, rfl, rfl, htakes.repo, htakes.path_safe, htakes.apart, htakes.free, ?_⟩
    intro record hrecord n hn
    have hn : reg.minted + 1 ≤ n := hn
    rcases (List.mem_orderedInsert _).1 hrecord with rfl | hrecord
    · intro heq
      have : reg.minted = n := htakes.apart heq
      omega
    · exact htakes.fresh record hrecord n (by omega)

/-- Whether a record is open, of the survey, and has a summary. -/
def holds (W : World) (summary : Text) (record : Record) : Bool :=
  record.summary = summary && decide (record.repo = W.repo ∧ record.status = .open_ ∧ record.filed_by = .survey)

/-- The record that the register holds for a summary. -/
def heldRecord (W : World) (reg : Register) (summary : Text) : Option Record :=
  (reg.records.filter (holds W summary)).getLast?

theorem heldRecord_spec {summary : Text} {record : Record} (h : heldRecord W reg summary = some record) :
    record ∈ openRecords W reg ∧ record.summary = summary := by
  obtain ⟨hmem, hholds⟩ := List.mem_filter.1 (List.mem_of_getLast? h)
  obtain ⟨hsummary, hopen⟩ := Bool.and_eq_true_iff.1 hholds
  exact ⟨List.mem_filter.2 ⟨hmem, hopen⟩, of_decide_eq_true hsummary⟩

theorem get_held (summary : Text) : Dict.get (held W reg) summary = (heldRecord W reg summary).map (·.id) := by
  have hget := Dict.get_foldl_set Record.summary Record.id (openRecords W reg) [] summary
  rw [Dict.get_nil, Option.or_none] at hget
  refine hget.trans ?_
  unfold openRecords heldRecord
  rw [List.filter_filter]
  rfl

theorem filter_orderedInsert_of_neg {q : Record → Bool} {record : Record} (hq : q record = false) : ∀ records : List Record,
    (records.orderedInsert (fun a b => Record.le a b = true) record).filter q = records.filter q := by
  intro records
  induction records with
  | nil => simp [hq]
  | cons other records ih =>
    rw [List.orderedInsert_cons]
    split
    · rw [List.filter_cons_of_neg (by simp [hq])]
    · rw [List.filter_cons, List.filter_cons, ih]

/-- **A shelved record is held for its summary, where none was, and for no other.** -/
theorem heldRecord_shelved {shelved : Register} {record : Record}
    (hrecords : shelved.records = reg.records.orderedInsert (fun a b => Record.le a b = true) record)
    (hholds : holds W record.summary record = true) (hnone : heldRecord W reg record.summary = none) (summary : Text) :
    heldRecord W shelved summary = if summary = record.summary then some record else heldRecord W reg summary := by
  unfold heldRecord
  rw [hrecords]
  split
  · rename_i heq
    subst heq
    have hnil : reg.records.filter (holds W record.summary) = [] := List.getLast?_eq_none_iff.1 hnone
    have hperm := (List.perm_orderedInsert (fun a b => Record.le a b = true) record reg.records).filter
      (holds W record.summary)
    rw [List.filter_cons_of_pos hholds, hnil] at hperm
    rw [List.perm_singleton.1 hperm]
    rfl
  · rename_i hne
    rw [filter_orderedInsert_of_neg]
    have hother : ¬record.summary = summary := fun h => hne h.symm
    simp [holds, hother]

theorem fileFrom_known {proposals : List Proposal} {held : List (Text × Text)} {filed : Filed}
    (h : (Dict.get held proposal.summary).getD [] ≠ []) : fileFrom W (proposal :: proposals) held filed reg =
      fileFrom W proposals held
        { filed with ids := Dict.set filed.ids proposal.key ((Dict.get held proposal.summary).getD []) } reg :=
  if_pos h

theorem fileFrom_new {proposals : List Proposal} {held : List (Text × Text)} {filed : Filed} {shelved : Register}
    (h : (Dict.get held proposal.summary).getD [] = []) (hfile : file_record W reg proposal = .ok shelved) :
    fileFrom W (proposal :: proposals) held filed reg =
      fileFrom W proposals (Dict.set held proposal.summary (W.mint reg.minted))
        { filed with ids := Dict.set filed.ids proposal.key (W.mint reg.minted), new := filed.new + 1 } shelved := by
  rw [fileFrom]
  dsimp only
  rw [if_neg (by simp [h]), hfile]

/-- What a filing of some proposals leaves. -/
structure Files (W : World) (proposals : List Proposal) (filed : Filed) (reg : Register) (filed' : Filed)
    (reg' : Register) : Prop where
  errors : filed'.errors = filed.errors
  takes : Takes W reg'
  heldKept : ∀ summary record, heldRecord W reg summary = some record → heldRecord W reg' summary = some record
  ids : ∀ proposal ∈ proposals, ∃ record, Dict.get filed'.ids proposal.key = some record.id ∧
    heldRecord W reg' proposal.summary = some record
  others : ∀ key, (∀ proposal ∈ proposals, proposal.key ≠ key) → Dict.get filed'.ids key = Dict.get filed.ids key
  stated : ∀ summary record, heldRecord W reg' summary = some record → heldRecord W reg summary = some record ∨
    ∃ proposal ∈ proposals, proposal.summary = summary ∧ record.symbols = proposal.symbols
  again : (∀ proposal ∈ proposals, heldRecord W reg proposal.summary ≠ none) → filed'.new = filed.new ∧ reg' = reg

/-- **Filing gives every proposal the record that the register then holds for its summary.** -/
theorem files_fileFrom : ∀ {proposals : List Proposal} {held : List (Text × Text)} {filed : Filed} {reg : Register},
    Takes W reg → (∀ summary, Dict.get held summary = (heldRecord W reg summary).map (·.id)) →
    (∀ proposal ∈ proposals, OneLine proposal.summary) → (proposals.map (·.key)).Nodup →
    Files W proposals filed reg (fileFrom W proposals held filed reg).1 (fileFrom W proposals held filed reg).2 := by
  intro proposals
  induction proposals with
  | nil =>
    intro held filed reg htakes _ _ _
    exact ⟨rfl, htakes, fun _ _ h => h, fun _ h => absurd h List.not_mem_nil, fun _ _ => rfl, fun _ _ h => .inl h,
      fun _ => ⟨rfl, rfl⟩⟩
  | cons proposal proposals ih =>
    intro held filed reg htakes hheld hlines hkeys
    obtain ⟨hkey, hkeys⟩ := List.nodup_cons.1 hkeys
    have hothers : ∀ other ∈ proposals, other.key ≠ proposal.key := fun other hother heq =>
      hkey (List.mem_map.2 ⟨other, hother, heq⟩)
    have hline := hlines proposal List.mem_cons_self
    have hlines := fun other hother => hlines other (List.mem_cons_of_mem proposal hother)
    cases hrecord : heldRecord W reg proposal.summary with
    | some record =>
      have hid : (Dict.get held proposal.summary).getD [] = record.id := by
        rw [hheld, hrecord]
        rfl
      have hne : record.id ≠ [] := by
        intro hnil
        have hvalid := reg.valid record (List.mem_of_mem_filter (heldRecord_spec hrecord).1)
        rw [hnil] at hvalid
        cases hvalid
      rw [fileFrom_known (by rw [hid]; exact hne), hid]
      have hrest : Files W proposals { filed with ids := Dict.set filed.ids proposal.key record.id } reg _ _ :=
        ih htakes hheld hlines hkeys
      refine ⟨hrest.errors, hrest.takes, hrest.heldKept, fun other hother => ?_, fun key hkey => ?_, ?_, ?_⟩
      · rcases List.mem_cons.1 hother with rfl | hother
        · refine ⟨record, ?_, hrest.heldKept _ _ hrecord⟩
          rw [hrest.others _ hothers, Dict.get_set, if_pos rfl]
        · exact hrest.ids other hother
      · rw [hrest.others key fun other hother => hkey other (List.mem_cons_of_mem _ hother), Dict.get_set,
          if_neg (hkey proposal List.mem_cons_self)]
      · intro summary other hother
        refine (hrest.stated summary other hother).imp_right ?_
        rintro ⟨stating, hstating, hstates⟩
        exact ⟨stating, List.mem_cons_of_mem _ hstating, hstates⟩
      · exact fun hall => hrest.again fun other hother => hall other (List.mem_cons_of_mem _ hother)
    | none =>
      have hnil : (Dict.get held proposal.summary).getD [] = [] := by
        rw [hheld, hrecord]
        rfl
      obtain ⟨shelved, hfile, -, hrecords, htakes'⟩ := file_record_takes htakes hline
      have hsummary : (W.record reg proposal).summary = proposal.summary := hline.stripped
      have hholds : holds W (W.record reg proposal).summary (W.record reg proposal) = true := by
        simp [holds, World.record]
      have hshelved := heldRecord_shelved hrecords hholds (by rw [hsummary]; exact hrecord)
      rw [hsummary] at hshelved
      have hheld' : ∀ summary, Dict.get (Dict.set held proposal.summary (W.mint reg.minted)) summary =
          (heldRecord W shelved summary).map (·.id) := by
        intro summary
        rw [Dict.get_set, hshelved, hheld]
        by_cases heq : proposal.summary = summary
        · rw [if_pos heq, if_pos heq.symm]
          rfl
        · rw [if_neg heq, if_neg fun h => heq h.symm]
      rw [fileFrom_new hnil hfile]
      have hrest : Files W proposals { filed with ids := Dict.set filed.ids proposal.key (W.mint reg.minted),
                                                  new := filed.new + 1 } shelved _ _ :=
        ih htakes' hheld' hlines hkeys
      refine ⟨hrest.errors, hrest.takes, fun summary record hold => ?_, fun other hother => ?_, fun key hkey => ?_, ?_, ?_⟩
      · refine hrest.heldKept summary record ?_
        have hne : summary ≠ proposal.summary := by
          rintro rfl
          rw [hrecord] at hold
          cases hold
        rw [hshelved, if_neg hne]
        exact hold
      · rcases List.mem_cons.1 hother with rfl | hother
        · refine ⟨W.record reg other, ?_, hrest.heldKept _ _ (by rw [hshelved, if_pos rfl])⟩
          rw [hrest.others _ hothers, Dict.get_set, if_pos rfl]
          rfl
        · exact hrest.ids other hother
      · rw [hrest.others key fun other hother => hkey other (List.mem_cons_of_mem _ hother), Dict.get_set,
          if_neg (hkey proposal List.mem_cons_self)]
      · intro summary other hother
        rcases hrest.stated summary other hother with hold | ⟨stating, hstating, hstates⟩
        · rw [hshelved] at hold
          split at hold
          · rename_i heq
            obtain rfl := Option.some.inj hold
            exact .inr ⟨proposal, List.mem_cons_self, heq.symm, rfl⟩
          · exact .inl hold
        · exact .inr ⟨stating, List.mem_cons_of_mem _ hstating, hstates⟩
      · exact fun hall => absurd hrecord (hall proposal List.mem_cons_self)

/-! ## Proposals -/

/-- What a cluster is called in the survey's artifacts. -/
def World.clusterId (W : World) (c : Fields) : Text := W.orEmpty c "id"

/-- The summary of a cluster's record. -/
def World.title (W : World) (c : Fields) : Text := Gates.squeezed (W.orBlank c "title")

theorem find_of_orEmpty {key : String} (h : W.orEmpty c key ≠ []) : ∃ x, find c key = some x ∧ W.text x = W.orEmpty c key := by
  unfold World.orEmpty at h ⊢
  split at h
  · rename_i htrue
    cases hfind : find c key with
    | none =>
      rw [get, hfind] at htrue
      cases htrue
    | some x =>
      rw [if_pos htrue, get, hfind]
      exact ⟨x, rfl, rfl⟩
  · exact absurd rfl h

theorem orBlank_eq {key : String} (h : W.orEmpty c key ≠ []) : W.orBlank c key = W.orEmpty c key := by
  obtain ⟨x, hfind, htext⟩ := find_of_orEmpty h
  unfold World.orBlank
  rw [hfind, ← htext]
  rfl

theorem Fine.clusterId_ne_nil (h : Fine W statuses c) : W.clusterId c ≠ [] := by
  intro hnil
  have hslug : isSlug (W.clusterId c) = true := h.slug
  rw [hnil] at hslug
  exact absurd hslug (by decide)

theorem Fine.oneLine (h : Fine W statuses c) : OneLine (W.title c) := by
  have htitle : Text.strip (W.orBlank c "title") ≠ [] := by
    rw [orBlank_eq fun hnil => h.title (by rw [hnil]; rfl)]
    exact h.title
  exact ⟨strip_squeezed _, squeezed_ne_nil htitle, not_mem_squeezed (by decide) (by decide),
    not_mem_squeezed (by decide) (by decide)⟩

theorem unitTexts_of_listed (h : W.listed c ≠ []) : W.unitTexts c = .ok (W.listed c) := by
  unfold World.listed at h ⊢
  unfold World.unitTexts
  split at h
  · rename_i units hunits
    have hne : units ≠ [] := by
      rintro rfl
      exact h rfl
    have htrue : truthy (.list units) = true := by simp [truthy, hne]
    rw [hunits, if_pos htrue]
    rfl
  · exact absurd rfl h

theorem proposal_for_fine (paths : List (Text × Text)) (h : Fine W statuses c) : ∃ proposal,
    proposal_for W paths c = .ok proposal ∧ proposal.key = W.clusterId c ∧ proposal.summary = W.title c ∧
      proposal.symbols = W.listed c := by
  obtain ⟨id, hid, htext⟩ := find_of_orEmpty h.clusterId_ne_nil
  unfold proposal_for
  rw [hid, unitTexts_of_listed h.some]
  exact ⟨_, rfl, htext, rfl, rfl⟩

/-- What a cluster adds to the manifest, with the record of its id. -/
def World.rowsOf (W : World) (ids : List (Text × Text)) (c : Fields) : List (Text × Text × Text) :=
  (W.listed c).map fun unit => (unit, (Dict.get ids (W.clusterId c)).getD [], W.clusterId c)

theorem bullets_fine {ids : List (Text × Text)} {id : Text} (h : Fine W statuses c)
    (hid : Dict.get ids (W.clusterId c) = some id) : W.bullets ids c = .ok (W.rowsOf ids c) := by
  have hblank : W.orBlank c "id" = W.clusterId c := orBlank_eq h.clusterId_ne_nil
  unfold World.bullets World.rowsOf
  rw [unitTexts_of_listed h.some, hblank]
  show (if W.listed c = [] then _ else _) = _
  rw [if_neg h.some, hid]
  rfl

theorem mapM_ok_map {α γ : Type} {f : α → Answer γ} {g : α → γ} {l : List α} (h : ∀ a ∈ l, f a = .ok (g a)) :
    l.mapM f = .ok (l.map g) :=
  mapM_ok_iff.2 (List.forall₂_map_right_iff.2 (List.forall₂_same.2 h))

/-! ## The manifest -/

/-- What an entry says of a unit: it names a record just when it names a cluster, and names those that list its id. -/
structure Names (W : World) (clusters : List Fields) (unit : Json.Fields) (entry : Entry) : Prop where
  bullets : entry.bullets = [] ↔ ∀ c ∈ clusters, W.entryId unit ∉ W.listed c
  clusters : ∀ cid, cid ∈ entry.clusters ↔ ∃ c ∈ clusters, W.clusterId c = cid ∧ W.entryId unit ∈ W.listed c

theorem mem_rows {ids : List (Text × Text)} {row : Text × Text × Text} :
    row ∈ (clusters.map (W.rowsOf ids)).flatten ↔ ∃ c ∈ clusters, row.1 ∈ W.listed c ∧
      row.2.1 = (Dict.get ids (W.clusterId c)).getD [] ∧ row.2.2 = W.clusterId c := by
  rw [← List.flatMap_def, List.mem_flatMap]
  constructor
  · rintro ⟨c, hc, hrow⟩
    obtain ⟨unit, hunit, rfl⟩ := List.mem_map.1 hrow
    exact ⟨c, hc, hunit, rfl, rfl⟩
  · rintro ⟨c, hc, hunit, hid, hcid⟩
    exact ⟨c, hc, List.mem_map.2 ⟨row.1, hunit, by rw [← hid, ← hcid]⟩⟩

theorem names_entry {ids : List (Text × Text)} {ordered : List Fields} (hperm : ordered.Perm clusters)
    (unit : Json.Fields) : Names W clusters unit (W.entry ((ordered.map (W.rowsOf ids)).flatten) unit) := by
  constructor
  · show List.map _ (List.filter _ _) = [] ↔ _
    rw [List.map_eq_nil_iff, List.filter_eq_nil_iff]
    constructor
    · intro h c hc hunit
      let row : Text × Text × Text := (W.entryId unit, (Dict.get ids (W.clusterId c)).getD [], W.clusterId c)
      exact h row (mem_rows.2 ⟨c, hperm.mem_iff.2 hc, hunit, rfl, rfl⟩) (decide_eq_true rfl)
    · intro h row hrow hunit
      obtain ⟨c, hc, hin, -⟩ := mem_rows.1 hrow
      exact h c (hperm.mem_iff.1 hc) (of_decide_eq_true hunit ▸ hin)
  · intro cid
    show cid ∈ List.map _ (List.filter _ _) ↔ _
    rw [List.mem_map]
    constructor
    · rintro ⟨row, hrow, rfl⟩
      obtain ⟨hrow, hunit⟩ := List.mem_filter.1 hrow
      obtain ⟨c, hc, hin, -, hcid⟩ := mem_rows.1 hrow
      exact ⟨c, hperm.mem_iff.1 hc, hcid.symm, of_decide_eq_true hunit ▸ hin⟩
    · rintro ⟨c, hc, rfl, hunit⟩
      let row : Text × Text × Text := (W.entryId unit, (Dict.get ids (W.clusterId c)).getD [], W.clusterId c)
      have hrow : row ∈ (ordered.map (W.rowsOf ids)).flatten := mem_rows.2 ⟨c, hperm.mem_iff.2 hc, hunit, rfl, rfl⟩
      exact ⟨row, List.mem_filter.2 ⟨hrow, decide_eq_true rfl⟩, rfl⟩

/-! ## Emission -/

/-- The clusters as they are sorted. -/
def World.keyed (W : World) (clusters : List Fields) : List ((Yaml × Text) × Fields) :=
  clusters.map fun c => (((find c "order").getD (.int 1000000), W.orBlank c "id"), c)

/-- What an emission of accepted clusters leaves. -/
structure Out (W : World) (clusters : List Fields) (units : List Json.Fields) (reg : Register) (out : Emission) :
    Prop where
  ok : out.result.emit_ok = true
  takes : Takes W out.register
  ids : ∀ c ∈ clusters, ∃ record, Dict.get out.filed.ids (W.clusterId c) = some record.id ∧
    heldRecord W out.register (W.title c) = some record
  heldKept : ∀ summary record, heldRecord W reg summary = some record →
    heldRecord W out.register summary = some record
  stated : ∀ summary record, heldRecord W out.register summary = some record →
    heldRecord W reg summary = some record ∨ ∃ c ∈ clusters, W.title c = summary ∧ record.symbols = W.listed c
  manifest : ∃ entries, out.manifest = some { inventory := W.inv_rel, units := entries } ∧
    List.Forall₂ (Names W clusters) units entries
  again : ∃ next, emitClusters W (clusters.map Yaml.dict) units out.register = .ok next ∧
    next.result.emit_ok = true ∧ next.filed.new = 0 ∧ next.register = out.register ∧ next.manifest = out.manifest

/-- Clusters that cannot be sorted are not emitted. -/
theorem emitClusters_unsorted (h : W.sorted (W.keyed clusters) = none) :
    emitClusters W (clusters.map Yaml.dict) units reg = .error .typeError := by
  have hordered : W.ordered clusters = .error .typeError := by
    unfold World.ordered
    unfold World.keyed at h
    rw [h]
    rfl
  unfold emitClusters
  rw [clusterDicts_map, hordered]
  rfl

/-- The manifest of sorted clusters and their records. -/
def World.manifest (W : World) (ids : List (Text × Text)) (ordered : List Fields) (units : List Json.Fields) : Manifest where
  inventory := W.inv_rel
  units := units.map (W.entry ((ordered.map (W.rowsOf ids)).flatten))

/-- An emission whose filing ends without errors. -/
theorem emitClusters_eq {ordered : List Fields} {proposals : List Proposal}
    (hordered : W.ordered clusters = .ok ordered) (hproposals : ordered.mapM (proposal_for W (W.paths units)) = .ok proposals)
    (herrors : (file_proposals W reg proposals).1.errors = [])
    (hrows : ordered.mapM (W.bullets (file_proposals W reg proposals).1.ids) =
      .ok (ordered.map (W.rowsOf (file_proposals W reg proposals).1.ids))) :
    emitClusters W (clusters.map Yaml.dict) units reg = .ok {
      result := W.emitted (file_proposals W reg proposals).1.new ordered.length units.length
      filed := (file_proposals W reg proposals).1
      register := (file_proposals W reg proposals).2
      manifest := some (W.manifest (file_proposals W reg proposals).1.ids ordered units) } := by
  unfold emitClusters
  rw [clusterDicts_map, hordered]
  refine bind_ok_iff.2 ⟨ordered, rfl, bind_ok_iff.2 ⟨proposals, hproposals, ?_⟩⟩
  dsimp only
  rw [if_neg (by simp [herrors]), hrows]
  refine bind_ok_iff.2 ⟨_, rfl, ?_⟩
  rw [List.length_map]
  rfl

/-- The proposals of accepted clusters, in their order. -/
theorem proposals_spec (haccepted : Accepted W statuses clusters) (paths : List (Text × Text)) {ordered : List Fields}
    (hperm : ordered.Perm clusters) : ∃ proposals, ordered.mapM (proposal_for W paths) = .ok proposals ∧
      List.Forall₂ (fun c proposal => proposal.key = W.clusterId c ∧ proposal.summary = W.title c ∧
        proposal.symbols = W.listed c) ordered proposals ∧
      (∀ proposal ∈ proposals, OneLine proposal.summary) ∧ (proposals.map (·.key)).Nodup := by
  have hfine : ∀ c ∈ ordered, Fine W statuses c := fun c hc => haccepted.fine c (hperm.mem_iff.1 hc)
  obtain ⟨proposals, hproposals⟩ := Checks.mapM_ok fun c hc => by
    obtain ⟨proposal, hproposal, -⟩ := proposal_for_fine paths (hfine c hc)
    exact ⟨proposal, hproposal⟩
  have hall := forall₂_imp_mem (S := fun c proposal => proposal.key = W.clusterId c ∧ proposal.summary = W.title c ∧
      proposal.symbols = W.listed c) (mapM_ok_iff.1 hproposals) fun c hc proposal _ hok => by
    obtain ⟨proposal', hok', hspec⟩ := proposal_for_fine paths (hfine c hc)
    obtain rfl := Except.ok.inj (hok.symm.trans hok')
    exact hspec
  refine ⟨proposals, hproposals, hall, fun proposal hproposal => ?_, ?_⟩
  · obtain ⟨c, hc, -, hsummary, -⟩ := exists_of_forall₂ hall proposal hproposal
    rw [hsummary]
    exact (hfine c hc).oneLine
  · have hkeys : proposals.map (·.key) = ordered.map W.clusterId := map_eq_of_forall₂ (hall.imp fun _ _ h => h.1)
    rw [hkeys]
    exact (hperm.map W.clusterId).nodup_iff.2 haccepted.ids

/-- What filing the proposals of clusters says of the clusters. -/
theorem files_ids {ordered : List Fields} {proposals : List Proposal} {filed filed' : Filed} {reg reg' : Register}
    (hall : List.Forall₂ (fun c proposal => proposal.key = W.clusterId c ∧ proposal.summary = W.title c ∧
      proposal.symbols = W.listed c) ordered proposals) (hfiles : Files W proposals filed reg filed' reg') :
    ∀ c ∈ ordered, ∃ record, Dict.get filed'.ids (W.clusterId c) = some record.id ∧
      heldRecord W reg' (W.title c) = some record := by
  intro c hc
  obtain ⟨proposal, hproposal, hkey, hsummary, -⟩ := exists_of_forall₂ hall.flip c hc
  rw [← hkey, ← hsummary]
  exact hfiles.ids proposal hproposal

/-- An emission of sorted clusters, by the filing of their proposals. -/
theorem emitClusters_files (units : List Json.Fields) {ordered : List Fields} {proposals : List Proposal}
    (hordered : W.ordered clusters = .ok ordered) (hfine : ∀ c ∈ ordered, Fine W statuses c)
    (hproposals : ordered.mapM (proposal_for W (W.paths units)) = .ok proposals)
    (hall : List.Forall₂ (fun c proposal => proposal.key = W.clusterId c ∧ proposal.summary = W.title c ∧
      proposal.symbols = W.listed c) ordered proposals)
    (hlines : ∀ proposal ∈ proposals, OneLine proposal.summary) (hkeys : (proposals.map (·.key)).Nodup)
    (htakes : Takes W reg) : ∃ filed reg', Files W proposals {} reg filed reg' ∧
      emitClusters W (clusters.map Yaml.dict) units reg = .ok {
        result := W.emitted filed.new ordered.length units.length
        filed
        register := reg'
        manifest := some (W.manifest filed.ids ordered units) } := by
  have hfiles : Files W proposals {} reg (file_proposals W reg proposals).1 (file_proposals W reg proposals).2 :=
    files_fileFrom htakes (fun summary => get_held summary) hlines hkeys
  refine ⟨_, _, hfiles, emitClusters_eq hordered hproposals hfiles.errors ?_⟩
  refine mapM_ok_map fun c hc => ?_
  obtain ⟨record, hid, -⟩ := files_ids hall hfiles c hc
  exact bullets_fine (hfine c hc) hid

/-- **Accepted clusters that can be sorted are emitted, and emitted again the same.** -/
theorem emitClusters_spec (units : List Json.Fields) (haccepted : Accepted W statuses clusters) (htakes : Takes W reg)
    {rows : List ((Yaml × Text) × Fields)} (hsorted : W.sorted (W.keyed clusters) = some rows) :
    ∃ out, emitClusters W (clusters.map Yaml.dict) units reg = .ok out ∧ Out W clusters units reg out := by
  have hordered : W.ordered clusters = .ok (rows.map Prod.snd) := by
    unfold World.ordered
    unfold World.keyed at hsorted
    rw [hsorted]
    rfl
  have hperm : (rows.map Prod.snd).Perm clusters := by
    have hperm := (W.sorted_perm _ _ hsorted).map Prod.snd
    have hkeyed : (W.keyed clusters).map Prod.snd = clusters := by
      unfold World.keyed
      rw [List.map_map]
      exact List.map_id clusters
    rwa [hkeyed] at hperm
  have hfine : ∀ c ∈ rows.map Prod.snd, Fine W statuses c := fun c hc => haccepted.fine c (hperm.mem_iff.1 hc)
  obtain ⟨proposals, hproposals, hall, hlines, hkeys⟩ := proposals_spec haccepted (W.paths units) hperm
  obtain ⟨filed, reg', hfiles, hout⟩ :=
    emitClusters_files units hordered hfine hproposals hall hlines hkeys htakes
  have hids := files_ids hall hfiles
  refine ⟨_, hout, rfl, hfiles.takes, fun c hc => hids c (hperm.mem_iff.2 hc), hfiles.heldKept, ?_, ?_, ?_⟩
  · intro summary record hrecord
    refine (hfiles.stated summary record hrecord).imp_right ?_
    rintro ⟨proposal, hproposal, hsummary, hsymbols⟩
    obtain ⟨c, hc, -, htitle, hlisted⟩ := exists_of_forall₂ hall proposal hproposal
    exact ⟨c, hperm.mem_iff.1 hc, htitle.symm.trans hsummary, hsymbols.trans hlisted⟩
  · refine ⟨_, rfl, ?_⟩
    rw [List.forall₂_map_right_iff, List.forall₂_same]
    exact fun unit _ => names_entry hperm unit
  · -- the second run finds every record that the first one left
    obtain ⟨filed', reg'', hfiles', hout'⟩ :=
      emitClusters_files units hordered hfine hproposals hall hlines hkeys hfiles.takes
    have hheld : ∀ proposal ∈ proposals, heldRecord W reg' proposal.summary ≠ none := by
      intro proposal hproposal hnone
      obtain ⟨record, -, hrecord⟩ := hfiles.ids proposal hproposal
      rw [hnone] at hrecord
      cases hrecord
    obtain ⟨hnew, rfl⟩ := hfiles'.again hheld
    refine ⟨_, hout', rfl, hnew, rfl, ?_⟩
    have hrows : ∀ c ∈ rows.map Prod.snd, W.rowsOf filed'.ids c = W.rowsOf filed.ids c := by
      intro c hc
      obtain ⟨record, hid, hrecord⟩ := hids c hc
      obtain ⟨record', hid', hrecord'⟩ := files_ids hall hfiles' c hc
      obtain rfl := Option.some.inj (hrecord.symm.trans hrecord')
      unfold World.rowsOf
      rw [hid, hid']
    show some (W.manifest filed'.ids _ units) = some (W.manifest filed.ids _ units)
    unfold World.manifest
    rw [List.map_congr_left hrows]

/-! ## The partition as a whole -/

/-- What the manifest must say of a unit. -/
def Right (W : World) (clusters : List Fields) (unit : Json.Fields) (entry : Entry) : Prop :=
  if isAssessed (Json.get unit "status".toList) = true then
    entry.bullets ≠ [] ∧
      ∀ cid, cid ∈ entry.clusters ↔ ∃ c ∈ clusters, W.clusterId c = cid ∧ W.gateId unit ∈ W.listed c
  else entry.bullets = [] ∧ entry.clusters = []

/-- A partition that is emitted whole. -/
structure Emits (W : World) (partition : File) (inventory : Option Json) (out : Emission) : Prop where
  ok : out.result.emit_ok = true
  /-- Each cluster has an open record of the survey, with its title and its units. -/
  own : ∀ c ∈ clustersIn partition, ∃ record ∈ openRecords W out.register,
    Dict.get out.filed.ids (W.clusterId c) = some record.id ∧ record.summary = W.title c ∧ record.symbols = W.listed c
  apart : (clustersIn partition).Pairwise fun c d =>
    Dict.get out.filed.ids (W.clusterId c) ≠ Dict.get out.filed.ids (W.clusterId d)
  manifest : ∃ entries, out.manifest = some { inventory := W.inv_rel, units := entries } ∧
    List.Forall₂ (Right W (clustersIn partition)) (unitsIn inventory) entries
  /-- Another run files nothing and writes the same manifest. -/
  again : ∃ next, emit_artifacts W partition inventory out.register = .ok next ∧ next.result.emit_ok = true ∧
    next.filed.new = 0 ∧ next.register = out.register ∧ next.manifest = out.manifest

/-- The gate gives a verdict, and what it accepts is emitted whole where the register takes every filing. -/
structure Whole (W : World) (partition : File) (inventory : Option Json) (reg : Register) : Prop where
  verdict : ∃ check, validate_partition W partition inventory = .ok check
  emits : ∀ check, validate_partition W partition inventory = .ok check → check.partition_ok = true → Takes W reg →
    ∃ out, emit_artifacts W partition inventory reg = .ok out ∧ Emits W partition inventory out

/-- Whether the inventory says one thing of a unit: of its two ids, and wherever it has the same id. -/
def Agrees (W : World) (clusters : List Fields) (units : List Json.Fields) (unit : Json.Fields) : Prop :=
  if isAssessed (Json.get unit "status".toList) = true then
    (Dict.get (unit_status W units) (W.gateId unit)).any isAssessed = true ∧
      ∀ c ∈ clusters, W.entryId unit ∈ W.listed c ↔ W.gateId unit ∈ W.listed c
  else ¬(Dict.get (unit_status W units) (W.entryId unit)).any isAssessed = true

/-- What the emitter takes for granted of clusters. -/
structure Settled (W : World) (clusters : List Fields) (units : List Json.Fields) (reg : Register) : Prop where
  sorts : W.sorted (W.keyed clusters) ≠ none
  titles : (clusters.map W.title).Nodup
  states : ∀ c ∈ clusters, ∀ record, heldRecord W reg (W.title c) = some record → record.symbols = W.listed c
  units : ∀ unit ∈ units, Agrees W clusters units unit

/-- What the gate and the emitter take for granted. -/
structure Fits (W : World) (partition : File) (inventory : Option Json) (reg : Register) : Prop where
  readable : Readable partition inventory
  settled : ∀ check, validate_partition W partition inventory = .ok check → check.partition_ok = true → Takes W reg →
    Settled W (clustersIn partition) (unitsIn inventory) reg

/-- Of an accepted partition, the clusters are emitted. -/
theorem emit_accepted {check : PartitionCheck} (h : validate_partition W partition inventory = .ok check)
    (hok : check.partition_ok = true) (reg : Register) : emit_artifacts W partition inventory reg =
      emitClusters W ((clustersIn partition).map Yaml.dict) (unitsIn inventory) reg := by
  obtain ⟨part, kvs, items, rfl, rfl, hitems, hclusters, -⟩ := accepted_spec h hok
  unfold emit_artifacts
  dsimp only
  rw [hclusters]
  show (unitItems (unitsOf kvs) >>= fun units => emitClusters W _ (unitDicts units) reg) = _
  rw [hitems, ← unitsIn_eq hitems]
  rfl

theorem Accepted.assessed_iff (h : Accepted W statuses clusters) (uid : Text) :
    (Dict.get statuses uid).any isAssessed = true ↔ ∃ c ∈ clusters, uid ∈ W.listed c := by
  refine ⟨h.covered uid, ?_⟩
  rintro ⟨c, hc, huid⟩
  exact (h.fine c hc).assessed uid huid

/-- The manifest says the right thing of a unit just when the inventory says one thing of it. -/
theorem right_iff {unit : Json.Fields} {entry : Entry} (haccepted : Accepted W (unit_status W units) clusters)
    (hnames : Names W clusters unit entry) : Right W clusters unit entry ↔ Agrees W clusters units unit := by
  unfold Right Agrees
  rw [haccepted.assessed_iff, haccepted.assessed_iff]
  split
  · constructor
    · rintro ⟨hbullets, hclusters⟩
      have hsame : ∀ c ∈ clusters, W.entryId unit ∈ W.listed c ↔ W.gateId unit ∈ W.listed c := by
        intro c hc
        have hiff := (hnames.clusters (W.clusterId c)).symm.trans (hclusters (W.clusterId c))
        constructor
        · intro hin
          obtain ⟨d, hd, hid, hgate⟩ := hiff.1 ⟨c, hc, rfl, hin⟩
          rwa [List.inj_on_of_nodup_map haccepted.ids hd hc hid] at hgate
        · intro hin
          obtain ⟨d, hd, hid, hentry⟩ := hiff.2 ⟨c, hc, rfl, hin⟩
          rwa [List.inj_on_of_nodup_map haccepted.ids hd hc hid] at hentry
      refine ⟨?_, hsame⟩
      by_contra hnone
      refine hbullets (hnames.bullets.2 fun c hc hin => hnone ⟨c, hc, (hsame c hc).1 hin⟩)
    · rintro ⟨⟨c, hc, hgate⟩, hsame⟩
      refine ⟨fun hnil => hnames.bullets.1 hnil c hc ((hsame c hc).2 hgate), fun cid => ?_⟩
      rw [hnames.clusters]
      constructor
      · rintro ⟨d, hd, hid, hin⟩
        exact ⟨d, hd, hid, (hsame d hd).1 hin⟩
      · rintro ⟨d, hd, hid, hin⟩
        exact ⟨d, hd, hid, (hsame d hd).2 hin⟩
  · constructor
    · rintro ⟨hbullets, -⟩ ⟨c, hc, hin⟩
      exact hnames.bullets.1 hbullets c hc hin
    · intro hnone
      refine ⟨hnames.bullets.2 fun c hc hin => hnone ⟨c, hc, hin⟩, List.eq_nil_iff_forall_not_mem.2 fun cid hcid => ?_⟩
      obtain ⟨c, hc, -, hin⟩ := (hnames.clusters cid).1 hcid
      exact hnone ⟨c, hc, hin⟩

theorem eq_of_open {record other : Record} (h : record ∈ openRecords W reg) (h' : other ∈ openRecords W reg)
    (hid : record.id = other.id) : record = other :=
  List.inj_on_of_nodup_map reg.distinct (List.mem_of_mem_filter h) (List.mem_of_mem_filter h') hid

theorem settled_of_emits {check : PartitionCheck} {out : Emission}
    (h : validate_partition W partition inventory = .ok check) (hok : check.partition_ok = true) (htakes : Takes W reg)
    (hout : emit_artifacts W partition inventory reg = .ok out) (hemits : Emits W partition inventory out) :
    Settled W (clustersIn partition) (unitsIn inventory) reg := by
  obtain ⟨-, -, -, -, -, -, -, haccepted⟩ := accepted_spec h hok
  rw [emit_accepted h hok] at hout
  cases hsorted : W.sorted (W.keyed (clustersIn partition)) with
  | none =>
    rw [emitClusters_unsorted hsorted] at hout
    cases hout
  | some rows =>
    obtain ⟨out', hout', hspec⟩ := emitClusters_spec (unitsIn inventory) haccepted htakes hsorted
    obtain rfl := Except.ok.inj (hout.symm.trans hout')
    refine ⟨by rw [hsorted]; exact Option.some_ne_none _, ?_, fun c hc record hrecord => ?_, fun unit hunit => ?_⟩
    · rw [List.Nodup, List.pairwise_map]
      refine hemits.apart.imp_of_mem fun {c d} hc hd hne htitle => ?_
      obtain ⟨record, hid, hheld⟩ := hspec.ids c hc
      obtain ⟨record', hid', hheld'⟩ := hspec.ids d hd
      rw [htitle] at hheld
      obtain rfl := Option.some.inj (hheld.symm.trans hheld')
      exact hne (hid.trans hid'.symm)
    · obtain ⟨own, hown, hid, -, hsymbols⟩ := hemits.own c hc
      obtain ⟨record', hid', hheld⟩ := hspec.ids c hc
      obtain rfl := Option.some.inj (hheld.symm.trans (hspec.heldKept _ _ hrecord))
      obtain rfl := eq_of_open hown (heldRecord_spec hheld).1 (Option.some.inj (hid.symm.trans hid'))
      exact hsymbols
    · obtain ⟨entries, hentries, hright⟩ := hemits.manifest
      obtain ⟨entries', hentries', hnames⟩ := hspec.manifest
      obtain rfl : entries = entries' := (Manifest.mk.inj (Option.some.inj (hentries.symm.trans hentries'))).2
      have hboth := hright.mp (fun _ _ hnames hright => And.intro hright hnames) hnames
      obtain ⟨entry, -, hnames, hright⟩ := exists_of_forall₂ hboth.flip unit hunit
      exact (right_iff haccepted hnames).1 hright

theorem emits_of_settled {check : PartitionCheck} (h : validate_partition W partition inventory = .ok check)
    (hok : check.partition_ok = true) (htakes : Takes W reg)
    (hsettled : Settled W (clustersIn partition) (unitsIn inventory) reg) :
    ∃ out, emit_artifacts W partition inventory reg = .ok out ∧ Emits W partition inventory out := by
  obtain ⟨-, -, -, -, -, -, -, haccepted⟩ := accepted_spec h hok
  obtain ⟨rows, hsorted⟩ := Option.ne_none_iff_exists'.1 hsettled.sorts
  obtain ⟨out, hout, hspec⟩ := emitClusters_spec (unitsIn inventory) haccepted htakes hsorted
  refine ⟨out, (emit_accepted h hok reg).trans hout, hspec.ok, fun c hc => ?_, ?_, ?_, ?_⟩
  · obtain ⟨record, hid, hheld⟩ := hspec.ids c hc
    obtain ⟨hopen, htitle⟩ := heldRecord_spec hheld
    refine ⟨record, hopen, hid, htitle, ?_⟩
    rcases hspec.stated _ _ hheld with hold | ⟨d, hd, hsame, hsymbols⟩
    · exact hsettled.states c hc record hold
    · rwa [List.inj_on_of_nodup_map hsettled.titles hd hc hsame] at hsymbols
  · have hpairs := List.pairwise_map.1 hsettled.titles
    refine hpairs.imp_of_mem fun {c d} hc hd hne heq => ?_
    obtain ⟨record, hid, hheld⟩ := hspec.ids c hc
    obtain ⟨record', hid', hheld'⟩ := hspec.ids d hd
    obtain ⟨hopen, htitle⟩ := heldRecord_spec hheld
    obtain ⟨hopen', htitle'⟩ := heldRecord_spec hheld'
    rw [hid, hid'] at heq
    obtain rfl := eq_of_open hopen hopen' (Option.some.inj heq)
    exact hne (htitle.symm.trans htitle')
  · obtain ⟨entries, hentries, hnames⟩ := hspec.manifest
    refine ⟨entries, hentries, forall₂_imp_mem hnames fun unit hunit entry _ hentry => ?_⟩
    exact (right_iff haccepted hentry).2 (hsettled.units unit hunit)
  · obtain ⟨next, hnext, hrest⟩ := hspec.again
    exact ⟨next, (emit_accepted h hok out.register).trans hnext, hrest⟩

theorem Whole.fits {reg : Register} (h : Whole W partition inventory reg) : Fits W partition inventory reg := by
  refine ⟨validate_ok_iff.1 h.verdict, fun check hcheck hok htakes => ?_⟩
  obtain ⟨out, hout, hemits⟩ := h.emits check hcheck hok htakes
  exact settled_of_emits hcheck hok htakes hout hemits

end Partition

/-! ## Two clusters with one title -/

namespace Api

def world : World where
  str _ := []
  strJson _ := []
  sorted rows := some rows
  sorted_perm rows ordered h := by
    obtain rfl := Option.some.inj h
    exact List.Perm.refl rows
  repo := "acme".toList
  mint n := "ACME-".toList ++ List.replicate n '0'
  taken _ := false

def cluster (id title unit : String) : Yaml := .dict [
  (.str "id".toList, .str id.toList), (.str "title".toList, .str title.toList),
  (.str "strategy".toList, .str "dedicated".toList), (.str "remediation_pattern".toList, .str "extract".toList),
  (.str "units".toList, .list [.str unit.toList])]

/-- The titles differ in white space. -/
def partition : File := .value (.dict [(.str "clusters".toList, .list [
  cluster "first-fix" "Fix the API" "src/a.ts", cluster "second-fix" "Fix  the API" "src/b.ts"])])

def unit (id : String) : Json := .obj [("id".toList, .str id.toList), ("status".toList, .str "assessed".toList)]

def inventory : Option Json := some (.obj [("units".toList, .arr [unit "src/a.ts", unit "src/b.ts"])])

def register : Register where
  records := []
  minted := 0
  distinct := List.nodup_nil
  valid _ h := absurd h List.not_mem_nil

theorem takes : Takes world register where
  repo := by decide
  path_safe n := by
    show isId ('A' :: ("CME-".toList ++ List.replicate n '0')) = true
    simp [isId]
  apart m n h := by
    have hlength := congrArg List.length h
    simpa [world] using hlength
  free _ := rfl
  fresh _ h := absurd h List.not_mem_nil

theorem accepted : validate_partition world partition inventory = .ok { partition_ok := true } := by rfl

end Api

/-- A strategy that is a list has no hash. -/
example : validate_partition Api.world
    (.value (.dict [(.str "clusters".toList, .list [.dict [(.str "strategy".toList, .list [])]])])) Api.inventory =
      .error .typeError := by
  rfl

end Stablemate.Survey
