import Egressa.Measurement.Cost
import Egressa.Measurement.FlapGuard

/-!
# What a path monitor remembers

A `Window` (`internal/pathmon/window.go`) keeps two `SegmentTracker`s (`internal/measurement/stats.go`) and starts the
older one afresh every half span, but only when it is called, and at most once a call.  So its statistics may cover
samples older than the span (`snapshot_recent_iff`).
-/

namespace Egressa.Pathmon

open Measurement

/-- The operations on numbers a `SegmentTracker` uses besides. -/
class Analytic (F : Type) extends Arith F where
  exp2 : F → F
  /-- `float64(n)`. -/
  ofInt : ℤ → F

instance : Analytic Float := ⟨Float.exp2, Float.ofInt⟩

/-- A streaming estimator of a quantile, such as `p2Quantile`. -/
structure Estimator (F Q : Type) where
  new : F → Q
  observe : Q → F → Q
  value : Q → F

structure SegmentTrackerConfig (F : Type) where
  sampleHalfCount : F
  stalenessHalfLife : Duration

/-- `SegmentTracker`; the quantile estimators are a parameter. -/
structure SegmentTracker (F Q : Type) where
  cfg : SegmentTrackerConfig F
  p50 : Q
  p95 : Q
  haveMean : Bool
  mean : F
  varEWMA : F
  successes : UInt64
  losses : UInt64
  haveSample : Bool
  /-- Read only if `haveSample`. -/
  lastSample : ℤ

section Tracker

variable {F Q : Type} [Analytic F] (est : Estimator F Q)

def defaultSegmentTrackerConfig : SegmentTrackerConfig F := ⟨Analytic.ofInt 20, .ofInt (30 * second)⟩

def segmentStatsAlpha : F := 1 / Analytic.ofInt 8

def newSegmentTracker (cfg : SegmentTrackerConfig F) : SegmentTracker F Q where
  cfg :=
    { sampleHalfCount :=
        if Arith.le cfg.sampleHalfCount 0 then defaultSegmentTrackerConfig.sampleHalfCount else cfg.sampleHalfCount
      stalenessHalfLife :=
        if cfg.stalenessHalfLife ≤ 0 then (defaultSegmentTrackerConfig (F := F)).stalenessHalfLife
        else cfg.stalenessHalfLife }
  p50 := est.new (Analytic.ofInt 1 / Analytic.ofInt 2)
  p95 := est.new (Analytic.ofInt 19 / Analytic.ofInt 20)
  haveMean := false
  mean := 0
  varEWMA := 0
  successes := 0
  losses := 0
  haveSample := false
  lastSample := 0

namespace SegmentTracker

def observe (t : SegmentTracker F Q) (now : ℤ) (rttMicros : F) : SegmentTracker F Q :=
  let diff := rttMicros - t.mean
  let incr := segmentStatsAlpha * diff
  { t with
    p50 := est.observe t.p50 rttMicros
    p95 := est.observe t.p95 rttMicros
    haveMean := true
    mean := if t.haveMean then t.mean + incr else rttMicros
    varEWMA := if t.haveMean then (1 - segmentStatsAlpha) * (t.varEWMA + diff * incr) else 0
    successes := t.successes + 1
    lastSample := now
    haveSample := true }

def observeLoss (t : SegmentTracker F Q) (now : ℤ) : SegmentTracker F Q :=
  { t with losses := t.losses + 1, lastSample := now, haveSample := true }

/-- Confidence grows with the samples and fades with their age. -/
def confidenceLocked (t : SegmentTracker F Q) (n : UInt64) (age : ℤ) : F :=
  if n = 0 then 0
  else
    let sampleConf := Arith.ofUInt64 n / (Arith.ofUInt64 n + t.cfg.sampleHalfCount)
    let ageRatio := Analytic.ofInt age / Analytic.ofInt t.cfg.stalenessHalfLife.toInt
    sampleConf * Analytic.exp2 (-ageRatio)

/-- `Snapshot`: the statistics, and their age. -/
def snapshot (t : SegmentTracker F Q) (now : ℤ) : SegmentStats F × ℤ :=
  let n := t.successes + t.losses
  let age := if t.haveSample then Time.sub now t.lastSample else 0
  ({ p50Micros := est.value t.p50
     p95Micros := est.value t.p95
     lossRate := if 0 < n then Arith.ofUInt64 t.losses / Arith.ofUInt64 n else 0
     varianceMicros2 := t.varEWMA
     n := n
     confidence := t.confidenceLocked n age }, age)

end SegmentTracker

/-- `window`: two trackers, one of which is read. -/
structure Window (F Q : Type) where
  cfg : SegmentTrackerConfig F
  span : Duration
  old : SegmentTracker F Q
  young : SegmentTracker F Q
  rotated : ℤ

def newWindowAt (cfg : SegmentTrackerConfig F) (span : Duration) (now : ℤ) : Window F Q :=
  ⟨cfg, span, newSegmentTracker est cfg, newSegmentTracker est cfg, now⟩

namespace Window

/-- After half the span the younger tracker takes over. -/
def rotateLocked (w : Window F Q) (now : ℤ) : Window F Q :=
  if Time.sub now w.rotated < (w.span / 2).toInt then w
  else { w with old := w.young, young := newSegmentTracker est w.cfg, rotated := now }

def observe (w : Window F Q) (now : ℤ) (rtt : Duration) : Window F Q :=
  let w := w.rotateLocked est now
  let us : F := Analytic.ofInt (rtt / 1000).toInt
  { w with old := w.old.observe est now us, young := w.young.observe est now us }

def observeLoss (w : Window F Q) (now : ℤ) : Window F Q :=
  let w := w.rotateLocked est now
  { w with old := w.old.observeLoss now, young := w.young.observeLoss now }

def snapshot (w : Window F Q) (now : ℤ) : (SegmentStats F × ℤ) × Window F Q :=
  let w := w.rotateLocked est now
  (w.old.snapshot est now, w)

end Window

end Tracker

/-! ## What the trackers were fed -/

inductive WindowCall
  | observe (now : ℤ) (rtt : Duration)
  | observeLoss (now : ℤ)
  | snapshot (now : ℤ)
  deriving DecidableEq, Repr

/-- A sample, with no round trip time if it is a loss. -/
structure Recorded where
  now : ℤ
  rtt : Option Duration
  deriving DecidableEq, Repr

namespace WindowCall

def now : WindowCall → ℤ
  | observe now _ | observeLoss now | snapshot now => now

def sample? : WindowCall → Option Recorded
  | observe now rtt => some ⟨now, some rtt⟩
  | observeLoss now => some ⟨now, none⟩
  | snapshot _ => none

variable {F Q : Type} [Analytic F] (est : Estimator F Q)

def apply (w : Window F Q) : WindowCall → Window F Q
  | observe now rtt => w.observe est now rtt
  | observeLoss now => w.observeLoss est now
  | snapshot now => (w.snapshot est now).2

end WindowCall

/-- The samples two trackers have been fed, and the last rotation. -/
structure Fed where
  old : List Recorded
  young : List Recorded
  rotated : ℤ
  deriving DecidableEq, Repr

namespace Fed

/-- `rotateLocked`, on samples. -/
def rotate (half now : ℤ) (f : Fed) : Fed := if now - f.rotated < half then f else ⟨f.young, [], now⟩

/-- One call, on samples. -/
def call (half : ℤ) (f : Fed) (c : WindowCall) : Fed :=
  let f := f.rotate half c.now
  ⟨f.old ++ c.sample?.toList, f.young ++ c.sample?.toList, f.rotated⟩

end Fed

/-- What the trackers are fed by a run of calls. -/
def fed (half start : ℤ) (calls : List WindowCall) : Fed := calls.foldl (Fed.call half) ⟨[], [], start⟩

variable {F Q : Type} [Analytic F] (est : Estimator F Q) (cfg : SegmentTrackerConfig F)

def SegmentTracker.record (t : SegmentTracker F Q) (x : Recorded) : SegmentTracker F Q :=
  match x.rtt with
  | some rtt => t.observe est x.now (Analytic.ofInt (rtt / 1000).toInt)
  | none => t.observeLoss x.now

/-- A new tracker, fed with samples. -/
def feed (xs : List Recorded) : SegmentTracker F Q := xs.foldl (SegmentTracker.record est) (newSegmentTracker est cfg)

/-- The statistics at `t` are those of the samples from some point on, with all of the last half span and none from
before the span. -/
def Recent (span : Duration) (t : ℤ) (xs : List Recorded) (stats : SegmentStats F × ℤ) : Prop :=
  ∃ earlier later, xs = earlier ++ later ∧ (∀ x ∈ earlier, x.now ≤ t - (span / 2).toInt) ∧
    (∀ x ∈ later, t - span.toInt ≤ x.now) ∧ stats = (feed est cfg later).snapshot est t

/-- The window with trackers that were fed so. -/
def Fed.window (span : Duration) (f : Fed) : Window F Q :=
  ⟨cfg, span, feed est cfg f.old, feed est cfg f.young, f.rotated⟩

theorem Fed.rotateLocked_window (span : Duration) (f : Fed) {now : ℤ} (h : f.rotated ≤ now) :
    (f.window est cfg span).rotateLocked est now = (f.rotate (span / 2).toInt now).window est cfg span := by
  have due := Time.le_sub_iff h (span / 2)
  unfold Window.rotateLocked Fed.rotate Fed.window
  split_ifs with late early early
  · rfl
  · exact absurd late (not_lt.2 (due.2 (not_lt.1 early)))
  · exact absurd early (not_lt.2 (due.1 (not_lt.1 late)))
  · rfl

theorem feed_concat (xs : List Recorded) (x : Recorded) :
    feed est cfg (xs ++ [x]) = (feed est cfg xs).record est x := by
  unfold feed
  rw [List.foldl_append, List.foldl_cons, List.foldl_nil]

theorem Fed.apply_window (span : Duration) (f : Fed) (c : WindowCall) (h : f.rotated ≤ c.now) :
    c.apply est (f.window est cfg span) = (f.call (span / 2).toInt c).window est cfg span := by
  have rotated := f.rotateLocked_window est cfg span h
  cases c with
  | observe now rtt =>
    simp only [WindowCall.apply, Window.observe, WindowCall.now] at rotated ⊢
    rw [rotated]
    simp [Fed.call, Fed.window, WindowCall.sample?, feed_concat, SegmentTracker.record, WindowCall.now]
  | observeLoss now =>
    simp only [WindowCall.apply, Window.observeLoss, WindowCall.now] at rotated ⊢
    rw [rotated]
    simp [Fed.call, Fed.window, WindowCall.sample?, feed_concat, SegmentTracker.record, WindowCall.now]
  | snapshot now =>
    simp only [WindowCall.apply, Window.snapshot, WindowCall.now] at rotated ⊢
    rw [rotated]
    simp [Fed.call, WindowCall.sample?, WindowCall.now]

/-! ## The times of the rotations -/

theorem half_span_pos {span : Duration} (two : 2 ≤ span.toInt) : 0 < (span / 2).toInt := by
  have := span.toInt_lt
  rw [Int64.toInt_div, show (2 : Int64).toInt = 2 from rfl, Int.tdiv_eq_ediv_of_nonneg (by omega),
    Int.bmod_eq_of_le (by omega) (by omega)]
  omega

/-- The last two rotations, the earlier one first.  The creation of the window counts for both until there are two. -/
structure Rotations where
  before : ℤ
  last : ℤ
  deriving DecidableEq, Repr

/-- A call at `now` rotates when half a span has passed since the last rotation. -/
def Rotations.call (half : ℤ) (r : Rotations) (now : ℤ) : Rotations :=
  if now - r.last < half then r else ⟨r.last, now⟩

/-- The rotations that calls at these times have made. -/
def rotations (half start : ℤ) (times : List ℤ) : Rotations := times.foldl (Rotations.call half) ⟨start, start⟩

/-- When the tracker that a snapshot at `t` reads was started: at the last rotation if the snapshot itself rotates, and
otherwise at the one before. -/
def readSince (half start : ℤ) (times : List ℤ) (t : ℤ) : ℤ :=
  let r := rotations half start times
  if t - r.last < half then r.before else r.last

theorem Rotations.lt_call (r : Rotations) {half : ℤ} (pos : 0 < half) (now : ℤ) :
    now < (r.call half now).last + half := by
  unfold Rotations.call
  split_ifs with early
  · omega
  · exact lt_add_of_pos_right now pos

/-- Of the samples `xs`, a tracker that was started at the time `start` holds `ys`. -/
structure Since (half start : ℤ) (xs ys : List Recorded) : Prop where
  suffix : ∃ earlier, xs = earlier ++ ys ∧ ∀ x ∈ earlier, x.now ≤ start ∧ (0 < half → x.now < start)
  since : ∀ x ∈ ys, start ≤ x.now

theorem Since.concat {half start : ℤ} {xs ys zs : List Recorded} (h : Since half start xs ys)
    (later : ∀ x ∈ zs, start ≤ x.now) : Since half start (xs ++ zs) (ys ++ zs) := by
  obtain ⟨earlier, rfl, before⟩ := h.suffix
  exact ⟨⟨earlier, List.append_assoc .., before⟩, List.forall_mem_append.2 ⟨h.since, later⟩⟩

/-- The trackers at the time `t`, when `xs` has been recorded and the last rotations were `r`. -/
structure Fed.Holds (half : ℤ) (f : Fed) (r : Rotations) (xs : List Recorded) (t : ℤ) : Prop where
  old : Since half r.before xs f.old
  young : Since half r.last xs f.young
  rotated : f.rotated = r.last
  order : r.before ≤ r.last
  /-- The old tracker is at least half a span older, or has never been replaced. -/
  apart : r.before + half ≤ r.last ∨ f.old = xs
  /-- No rotation has been due when a sample was recorded. -/
  due : 0 < half → ∀ x ∈ xs, x.now < r.last + half
  last_le : r.last ≤ t
  past : ∀ x ∈ xs, x.now ≤ t

namespace Fed.Holds

variable {half t now : ℤ} {f : Fed} {r : Rotations} {xs : List Recorded}

theorem later (h : f.Holds half r xs t) (later : t ≤ now) : f.Holds half r xs now :=
  { h with last_le := h.last_le.trans later, past := fun x hx => (h.past x hx).trans later }

theorem rotate (h : f.Holds half r xs t) : (f.rotate half t).Holds half (r.call half t) xs t := by
  unfold Fed.rotate Rotations.call
  rw [h.rotated]
  split_ifs with early
  · exact h
  · have due : 0 < half → ∀ x ∈ xs, x.now < t := fun pos x hx => by
      have := h.due pos x hx
      omega
    exact
      { old := h.young
        young := ⟨⟨xs, (List.append_nil xs).symm, fun x hx => ⟨h.past x hx, fun pos => due pos x hx⟩⟩, by simp⟩
        rotated := rfl
        order := h.last_le
        apart := Or.inl (by dsimp only; omega)
        due := fun pos x hx => (due pos x hx).trans (lt_add_of_pos_right t pos)
        last_le := le_rfl
        past := h.past }

theorem call {c : WindowCall} (h : f.Holds half r xs c.now) :
    (f.call half c).Holds half (r.call half c.now) (xs ++ c.sample?.toList) c.now := by
  have next := h.rotate
  have recorded : ∀ x ∈ c.sample?.toList, x.now = c.now := by
    cases c <;> simp [WindowCall.sample?, WindowCall.now]
  exact
    { old := next.old.concat fun x hx => recorded x hx ▸ next.order.trans next.last_le
      young := next.young.concat fun x hx => recorded x hx ▸ next.last_le
      rotated := next.rotated
      order := next.order
      apart := next.apart.imp_right fun all => congrArg (· ++ c.sample?.toList) all
      due := fun pos => List.forall_mem_append.2 ⟨next.due pos, fun x hx => recorded x hx ▸ r.lt_call pos c.now⟩
      last_le := next.last_le
      past := List.forall_mem_append.2 ⟨next.past, fun x hx => (recorded x hx).le⟩ }

end Fed.Holds

/-- The calls are made one after the other, after `start` and before `t`. -/
def Timed (start : ℤ) (calls : List WindowCall) (t : ℤ) : Prop :=
  (start :: (calls.map WindowCall.now ++ [t])).Pairwise (· ≤ ·)

theorem Timed.concat {start t : ℤ} {calls : List WindowCall} {c : WindowCall} (timed : Timed start (calls ++ [c]) t) :
    Timed start calls c.now ∧ c.now ≤ t := by
  unfold Timed at timed ⊢
  rw [List.map_append, List.map_singleton, ← List.cons_append, List.pairwise_append] at timed
  exact ⟨timed.1, timed.2.2 c.now (by simp) t (by simp)⟩

theorem fed_holds (half start : ℤ) (calls : List WindowCall) {t : ℤ} (timed : Timed start calls t) :
    (fed half start calls).Holds half (rotations half start (calls.map WindowCall.now))
      (calls.filterMap WindowCall.sample?) t := by
  induction calls using List.reverseRecOn generalizing t with
  | nil =>
    have first : start ≤ t := (List.pairwise_cons.1 timed).1 t (by simp)
    exact ⟨⟨⟨[], rfl, by simp⟩, by simp [fed]⟩, ⟨⟨[], rfl, by simp⟩, by simp [fed]⟩, rfl, le_rfl, Or.inr rfl, by simp,
      first, by simp⟩
  | append_singleton calls c ih =>
    obtain ⟨timed, later⟩ := timed.concat
    have next := (ih timed).call
    rw [fed, rotations, List.map_append, List.foldl_append, List.foldl_append, List.filterMap_append,
      ← fed, ← rotations]
    exact next.later later

theorem run_window (span : Duration) (start : ℤ) (calls : List WindowCall) {t : ℤ} (timed : Timed start calls t) :
    calls.foldl (WindowCall.apply est) (newWindowAt est cfg span start) =
      (fed (span / 2).toInt start calls).window est cfg span := by
  induction calls using List.reverseRecOn generalizing t with
  | nil => rfl
  | append_singleton calls c ih =>
    obtain ⟨timed, -⟩ := timed.concat
    rw [fed, List.foldl_append, List.foldl_append, ← fed, ih timed]
    have holds := fed_holds (span / 2).toInt start calls timed
    exact Fed.apply_window est cfg span _ c (holds.rotated.trans_le holds.last_le)

/-! ## Snapshots -/

/-- The samples a snapshot at `t` is made from. -/
def Fed.read (half t : ℤ) (f : Fed) : List Recorded := (f.rotate half t).old

theorem snapshot_eq (span : Duration) {start t : ℤ} {calls : List WindowCall} (timed : Timed start calls t) :
    ((calls.foldl (WindowCall.apply est) (newWindowAt est cfg span start)).snapshot est t).1 =
      (feed est cfg ((fed (span / 2).toInt start calls).read (span / 2).toInt t)).snapshot est t := by
  have holds := fed_holds (span / 2).toInt start calls timed
  rw [run_window est cfg span start calls timed, Window.snapshot,
    Fed.rotateLocked_window est cfg span _ (holds.rotated.trans_le holds.last_le)]
  rfl

theorem read_since (half : ℤ) {start t : ℤ} {calls : List WindowCall} (timed : Timed start calls t) :
    Since half (readSince half start (calls.map WindowCall.now) t) (calls.filterMap WindowCall.sample?)
      ((fed half start calls).read half t) := by
  have started : readSince half start (calls.map WindowCall.now) t =
      ((rotations half start (calls.map WindowCall.now)).call half t).before := by
    unfold readSince Rotations.call
    dsimp only
    split_ifs <;> rfl
  rw [started]
  exact (fed_holds half start calls timed).rotate.old

/-- What is not read is at least half a span old. -/
theorem read_suffix (half : ℤ) {start t : ℤ} {calls : List WindowCall} (timed : Timed start calls t) :
    ∃ earlier, calls.filterMap WindowCall.sample? = earlier ++ (fed half start calls).read half t ∧
      ∀ x ∈ earlier, x.now ≤ t - half := by
  have holds := (fed_holds half start calls timed).rotate
  obtain ⟨earlier, eq, before⟩ := holds.old.suffix
  refine ⟨earlier, eq, fun x hx => ?_⟩
  rcases holds.apart with apart | all
  · have := (before x hx).1
    have := holds.last_le
    omega
  · rw [List.self_eq_append_left.1 (all.trans eq)] at hx
    cases hx

theorem feed_count (xs : List Recorded) :
    (feed est cfg xs).successes + (feed est cfg xs).losses = UInt64.ofNat xs.length := by
  induction xs using List.reverseRecOn with
  | nil => rfl
  | append_singleton xs x ih =>
    rw [feed_concat, List.length_append, List.length_singleton, UInt64.ofNat_add, ← ih]
    cases h : x.rtt with
    | none =>
      simp only [SegmentTracker.record, h, SegmentTracker.observeLoss]
      rw [add_assoc]
      rfl
    | some rtt =>
      simp only [SegmentTracker.record, h, SegmentTracker.observe]
      rw [add_right_comm]
      rfl

theorem fresh_of_recent (span : Duration) {start t : ℤ} {calls : List WindowCall} (timed : Timed start calls t)
    (few : (calls.filterMap WindowCall.sample?).length < 2 ^ 64)
    (recent : Recent est cfg span t (calls.filterMap WindowCall.sample?)
      ((calls.foldl (WindowCall.apply est) (newWindowAt est cfg span start)).snapshot est t).1) :
    ∀ x ∈ (fed (span / 2).toInt start calls).read (span / 2).toInt t, t - span.toInt ≤ x.now := by
  obtain ⟨earlier, later, eq, -, young, stats⟩ := recent
  obtain ⟨earlier', eq', -⟩ := read_suffix (span / 2).toInt timed
  rw [snapshot_eq est cfg span timed] at stats
  generalize (fed (span / 2).toInt start calls).read (span / 2).toInt t = read at *
  have counts : UInt64.ofNat read.length = UInt64.ofNat later.length := by
    rw [← feed_count est cfg, ← feed_count est cfg]
    exact congrArg (fun s => s.1.n) stats
  have length : read.length = later.length := by
    have h : read.length < 2 ^ 64 := by rw [eq', List.length_append] at few; omega
    have h' : later.length < 2 ^ 64 := by rw [eq, List.length_append] at few; omega
    have := congrArg UInt64.toNat counts
    rwa [UInt64.toNat_ofNat_of_lt' h, UInt64.toNat_ofNat_of_lt' h'] at this
  rwa [(List.append_inj' (eq'.symm.trans eq) length).2]

/-- A snapshot covers the last half span and nothing from before the span just if nothing so old was recorded since the
tracker it reads was started.  Half a span of one nanosecond is 0, so that every call rotates. -/
theorem snapshot_recent_iff (span : Duration) {start t : ℤ} {calls : List WindowCall} (timed : Timed start calls t) :
    let samples := calls.filterMap WindowCall.sample?
    let since := readSince (span / 2).toInt start (calls.map WindowCall.now) t
    let recent := Recent est cfg span t samples
      ((calls.foldl (WindowCall.apply est) (newWindowAt est cfg span start)).snapshot est t).1
    let fresh := ∀ x ∈ samples, since ≤ x.now → t - span.toInt ≤ x.now
    (fresh → recent) ∧ (2 ≤ span.toInt → samples.length < 2 ^ 64 → recent → fresh) := by
  have read := read_since (span / 2).toInt timed
  refine ⟨fun fresh => ?_, fun two few recent x hx late => ?_⟩
  · obtain ⟨earlier, eq, bound⟩ := read_suffix (span / 2).toInt timed
    exact ⟨earlier, _, eq, bound, fun x hx => fresh x (eq ▸ List.mem_append_right earlier hx) (read.since x hx),
      snapshot_eq est cfg span timed⟩
  · have held := fresh_of_recent est cfg span timed few recent
    obtain ⟨earlier, eq, before⟩ := read.suffix
    rw [eq] at hx
    rcases List.mem_append.1 hx with hx | hx
    · exact absurd late (not_le.2 ((before x hx).2 (half_span_pos two)))
    · exact held x hx

namespace Sample

def estimator : Estimator Float Unit := ⟨fun _ => (), fun _ _ => (), fun _ => 0⟩

end Sample

open Sample in
theorem snapshot_recent_iff_eleven :
    let calls : List WindowCall := [.observe 1 2000, .observeLoss 6, .observe 9 3000]
    Recent estimator ⟨20, 30⟩ 10 11 (calls.filterMap WindowCall.sample?)
      ((calls.foldl (WindowCall.apply estimator) (newWindowAt estimator ⟨20, 30⟩ 10 0)).snapshot estimator 11).1 :=
  (snapshot_recent_iff estimator ⟨20, 30⟩ 10 (by unfold Timed; decide)).1 (by decide)

open Sample in
/-- A window of span 10 is given a sample at 1, and asked at 100. -/
theorem stale_sample_reported : ¬Recent estimator ⟨20, 30⟩ 10 100 [⟨1, some 2000⟩]
      (((newWindowAt estimator ⟨20, 30⟩ 10 0).observe estimator 1 2000).snapshot estimator 100).1 := by
  intro recent
  have timed : Timed 0 [.observe 1 2000] 100 := by unfold Timed; decide
  exact absurd (fresh_of_recent estimator ⟨20, 30⟩ 10 timed (by decide) recent) (by decide)

end Egressa.Pathmon
