import Mathlib.Algebra.Order.Floor.Semiring
import Mathlib.Data.Rat.Floor
import Stablemate.Model.Text

/-!
# Overruns of a supervised job (`workhorse/job.py`)

`supervise` takes samples until the job ends or is killed, and touches the wake file when a
sample shows that the job has run past a further threshold. Times and sizes are rationals.
-/

namespace Stablemate.Job

def OVERRUN_FIRST_MULTIPLE : ℚ := 10

theorem floor_half_lt {ratio crossed : ℚ} (hpos : 0 < crossed) (h : crossed * 2 ≤ ratio) :
    ⌊ratio / (crossed * 2)⌋₊ < ⌊ratio / crossed⌋₊ := by
  have htwo : 2 ≤ ratio / crossed := (le_div_iff₀ hpos).2 (by linarith)
  have hhalf : ratio / (crossed * 2) = ratio / crossed / 2 := by rw [div_mul_eq_div_div]
  have hle : (⌊ratio / crossed / 2⌋₊ : ℚ) ≤ ratio / crossed / 2 := Nat.floor_le (by linarith)
  have hstep : ⌊ratio / crossed / 2⌋₊ + 1 ≤ ⌊ratio / crossed⌋₊ := by
    apply Nat.le_floor
    push_cast
    linarith
  rw [hhalf]
  omega

/-- The `while` loop of `overrun_multiple`, from a threshold that is positive. -/
def crossedFrom (ratio : ℚ) (crossed : {c : ℚ // 0 < c}) : ℚ :=
  if crossed.1 * 2 ≤ ratio then crossedFrom ratio ⟨crossed.1 * 2, mul_pos crossed.2 two_pos⟩ else crossed.1
termination_by ⌊ratio / crossed.1⌋₊
decreasing_by exact floor_half_lt crossed.2 (by assumption)

def overrun_multiple (elapsed_s estimate_s first : ℚ) : ℚ :=
  if h : estimate_s ≤ 0 ∨ first ≤ 0 ∨ elapsed_s ≤ 0 then 0
  else
    let ratio := elapsed_s / estimate_s
    if ratio < first then 0
    else crossedFrom ratio ⟨first, not_le.1 fun hfirst => h (.inr (.inl hfirst))⟩

/-! ## Supervising -/

/-- What `supervise` reads of the manifest and the handle. A size of `0` stands for none, as in
`manifest.get(...) or 0.0`. -/
structure Manifest where
  memory_mb : ℚ := 0
  estimate_s : ℚ := 0
  overrun_first_multiple : Option ℚ := none
  premium : Bool := false
  started_at : ℚ

/-- `manifest.get("overrun_first_multiple") or OVERRUN_FIRST_MULTIPLE` -/
def Manifest.first (manifest : Manifest) : ℚ :=
  match manifest.overrun_first_multiple with
  | some first => if first = 0 then OVERRUN_FIRST_MULTIPLE else first
  | none => OVERRUN_FIRST_MULTIPLE

/-- What one round of the loop finds: the clock, the larger of the two memory readings, and the
text of the kill request (empty when there is none). -/
structure Sample where
  now : ℚ
  rss_mb : ℚ := 0
  kill_request : Text := []

/-- Why a round kills the job; empty when it does not. -/
def killReason (manifest : Manifest) (peak_rss_mb : ℚ) (sample : Sample) : Text :=
  if sample.kill_request ≠ [] then sample.kill_request
  else if manifest.memory_mb ≠ 0 ∧ manifest.premium = false ∧ manifest.memory_mb < peak_rss_mb then "memory".toList
  else []

def Manifest.crossed (manifest : Manifest) (sample : Sample) : ℚ :=
  overrun_multiple (sample.now - manifest.started_at) manifest.estimate_s manifest.first

/-- What the loop leaves: for each round that looked at the clock the threshold for which it
touched the wake file, if it did; the peak; and why the job was killed. -/
structure Watched where
  announcements : List (Option ℚ)
  peak_rss_mb : ℚ
  kill_reason : Text

/-- The loop of `supervise`. It ends with the samples, when `poll` has a return code, or with a kill. -/
def watch (manifest : Manifest) : ℚ → ℚ → List Sample → Watched
  | _, peak_rss_mb, [] => ⟨[], peak_rss_mb, []⟩
  | announced, peak_rss_mb, sample :: samples =>
    let peak_rss_mb := max peak_rss_mb sample.rss_mb
    let kill_reason := killReason manifest peak_rss_mb sample
    if kill_reason ≠ [] then ⟨[], peak_rss_mb, kill_reason⟩
    else
      let crossed := manifest.crossed sample
      if announced < crossed then
        let watched := watch manifest crossed peak_rss_mb samples
        { watched with announcements := some crossed :: watched.announcements }
      else
        let watched := watch manifest announced peak_rss_mb samples
        { watched with announcements := none :: watched.announcements }

/-- `supervise`, up to the touch of the wake file with which it ends. -/
def supervise (manifest : Manifest) (samples : List Sample) : Watched := watch manifest 0 0 samples

end Stablemate.Job
