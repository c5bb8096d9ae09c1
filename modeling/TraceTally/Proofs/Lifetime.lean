import Mathlib.Algebra.Group.Nat.Defs
import TraceTally.Collector.Flush
import TraceTally.Proofs.RecordMap
import TraceTally.Settings.Basic

/-!
# How long a record is visible

Times are signed numbers of 64 bits. The lifetime is cut to the largest of them before it is added to
the time of creation, and so is the sum; for what was not created before the epoch the first cut makes
no difference. A record is found by every scan within its lifetime and by none after it, whatever
else has been written meanwhile: what a write drops had expired before the scan.
-/

namespace TraceTally

variable {σ V : Type}

namespace Duration

variable {c c' t : Int} {d d' : Duration}

theorem millis_mono (le : d ≤ d') : d.millis ≤ d'.millis := Nat.div_le_div_right le

theorem expiry_eq (nonneg : 0 ≤ c) (d : Duration) :
    expiry c d = min (c + d.millis) (2 ^ 63 - 1) := by
  simp only [expiry, Text.maxInt64]
  omega

theorem le_expiry (fits : c < 2 ^ 63) (d : Duration) : c ≤ expiry c d := by
  simp only [expiry, Text.maxInt64]
  omega

theorem expiry_mono (later : c ≤ c') (longer : d ≤ d') : expiry c d ≤ expiry c' d' := by
  have millis := millis_mono longer
  simp only [expiry, Text.maxInt64]
  omega

/-- No sum leaves the 64 bits. -/
theorem expiry_bounds (least : -2 ^ 63 ≤ c) (d : Duration) :
    -2 ^ 63 ≤ expiry c d ∧ expiry c d < 2 ^ 63 := by
  simp only [expiry, Text.maxInt64]
  omega

theorem lt_expiry_iff (nonneg : 0 ≤ c) (fits : t < 2 ^ 63 - 1) (d : Duration) :
    t < expiry c d ↔ t - c < d.millis := by
  rw [expiry_eq nonneg]
  omega

/-- The first second needs no time of creation after the epoch: the lifetime is cut far above it. -/
theorem lt_expiry_of_lt_second (second : 1000 ≤ d.millis) (fits : t < 2 ^ 63 - 1)
    (early : t < c + 1000) : t < expiry c d := by
  simp only [expiry, Text.maxInt64]
  omega

end Duration

theorem Settings.second_le_lifetime {s : Settings} (accepted : s.fault? = none) :
    1000 ≤ s.bufferPolicy.lifetime.millis := by
  have long : s.recordLifetime.seconds ≠ 0 := by
    intro short
    rw [fault?, if_pos short] at accepted
    split at accepted
    · cases accepted
    · split at accepted <;> cases accepted
  simp only [bufferPolicy, Duration.seconds, Duration.millis] at long ⊢
  omega

/-- All records of a batch have one time of creation and the expiry that follows from it. -/
theorem dated_of_mem_buildBatch [EventStore σ V] {c : Int} {d : Duration} {pairs : List (Key × V)}
    {s s' : σ} {records : List (Record V)} (built : buildBatch c d pairs s = (.ok records, s'))
    {r : Record V} (hr : r ∈ records) : r.created = c ∧ r.expires = Duration.expiry c d := by
  induction pairs generalizing s s' records with
  | nil =>
    cases built
    cases hr
  | cons p rest ih =>
    rw [buildBatch] at built
    split at built
    · cases built
    · split at built
      · cases built
      · rename_i later
        cases built
        obtain rfl | hr := List.mem_cons.mp hr
        · exact ⟨rfl, rfl⟩
        · exact ih later hr

namespace MemoryStore

/-- The record was written, and no call has replaced or removed it since. No batch was written after
it had expired, unless that was by `t`: a clock that is set back shows nothing again. -/
inductive Retains (t : Int) (r : Record V) : MemoryStore V → Prop
  | given {s : MemoryStore V} {now : Int} {batch : List (Record V)} (mem : r ∈ batch)
      (once : DistinctIds batch) : Retains t r (s.write now batch)
  | write {s : MemoryStore V} {now : Int} {batch : List (Record V)} (retains : Retains t r s)
      (early : now ≤ t ∨ r.isLive now = true) (others : ∀ new ∈ batch, new.id ≠ r.id) :
      Retains t r (s.write now batch)
  | erase {s : MemoryStore V} {id : RowId} (retains : Retains t r s) (other : r.id ≠ id) :
      Retains t r (s.erase id)
  | mint {s : MemoryStore V} (retains : Retains t r s) : Retains t r s.mint.2

/-- A scan returns the record. -/
def Returns (t : Int) (p : Predicate) (s : MemoryStore V) (r : Record V) : Prop :=
  ∃ rows, (EventStore.scan t p s).1 = .ok rows ∧ r.scanned ∈ rows

namespace Retains

variable {t : Int} {r : Record V} {s : MemoryStore V}

theorem mem_of_isLive (retains : Retains t r s) (live : r.isLive t = true) : r ∈ s.rows := by
  induction retains with
  | given mem once => exact mem_rows_write.mpr (.inr mem)
  | write retains early others ih =>
    have unexpired := early.elim (Record.isLive_of_le live) id
    exact mem_rows_write.mpr (.inl ⟨ih, unexpired, others⟩)
  | erase retains other ih =>
    rw [rows_erase]
    exact List.mem_filter.mpr ⟨ih, by simpa using other⟩
  | mint retains ih => exact ih

/-- Also when it is dropped, no other row takes its identifier. -/
theorem eq_of_id_eq (retains : Retains t r s) {r' : Record V} (hr' : r' ∈ s.rows)
    (same : r'.id = r.id) : r' = r := by
  induction retains with
  | given mem once =>
    rcases mem_rows_write.mp hr' with ⟨-, -, unused⟩ | new
    · exact absurd same.symm (unused r mem)
    · exact once.eq_of_id_eq new mem same
  | write retains early others ih =>
    rcases mem_rows_write.mp hr' with ⟨old, -, -⟩ | new
    · exact ih old
    · exact absurd same (others r' new)
  | erase retains other ih =>
    rw [rows_erase] at hr'
    exact ih (List.mem_of_mem_filter hr')
  | mint retains ih => exact ih hr'

theorem returns_iff (retains : Retains t r s) {p : Predicate} (holds : p.holds r.row = true) :
    Returns t p s r ↔ r.isLive t = true := by
  constructor
  · rintro ⟨_, ⟨⟩, hr⟩
    obtain ⟨r', hr', same⟩ := List.mem_map.mp hr
    obtain ⟨stored, chosen⟩ := List.mem_filter.mp hr'
    obtain rfl := retains.eq_of_id_eq stored (congrArg ScannedRow.id same)
    exact (Bool.and_eq_true_iff.mp chosen).1
  · intro live
    refine ⟨_, rfl, List.mem_map_of_mem (List.mem_filter.mpr ⟨retains.mem_of_isLive live, ?_⟩)⟩
    rw [live, holds, Bool.and_self]

end Retains

end MemoryStore

open MemoryStore (Retains Returns)

/-- A record that is made at `c`, not before the epoch, expires at `c` and its lifetime in whole
milliseconds, or at the last time of all, and is returned exactly by the scans before. At any `c` the
expiry has 64 bits, and it grows with `c` and with the lifetime. Under settings that are accepted
a record is returned throughout its first second. -/
theorem returned_for_its_lifetime [EventStore σ V] :
    (∀ (c : Int) (d : Duration) (pairs : List (Key × V)) (made made' : σ)
      (records : List (Record V)), 0 ≤ c → c < 2 ^ 63 →
      buildBatch c d pairs made = (.ok records, made') → ∀ r ∈ records,
        r.created = c ∧ r.expires = min (c + d.millis) (2 ^ 63 - 1) ∧ c ≤ r.expires ∧
        ∀ (t : Int) (p : Predicate) (s : MemoryStore V), t < 2 ^ 63 - 1 → Retains t r s →
          p.holds r.row = true → (Returns t p s r ↔ t - c < d.millis)) ∧
    (∀ (c c' : Int) (d d' : Duration),
      (-2 ^ 63 ≤ c → -2 ^ 63 ≤ Duration.expiry c d ∧ Duration.expiry c d < 2 ^ 63) ∧
      (c ≤ c' → d ≤ d' → Duration.expiry c d ≤ Duration.expiry c' d')) ∧
    ∀ (settings : Settings) (c : Int) (pairs : List (Key × V)) (made made' : σ)
      (records : List (Record V)), settings.fault? = none →
      buildBatch c settings.bufferPolicy.lifetime pairs made = (.ok records, made') →
      ∀ r ∈ records, ∀ (t : Int) (p : Predicate) (s : MemoryStore V), t < 2 ^ 63 - 1 →
        t < c + 1000 → Retains t r s → p.holds r.row = true → Returns t p s r := by
  have live {r : Record V} {t : Int} : r.isLive t = true ↔ t < r.expires := decide_eq_true_iff
  refine ⟨?_, ?_, ?_⟩
  · intro c d pairs made made' records nonneg fits built r hr
    obtain ⟨created, expires⟩ := dated_of_mem_buildBatch built hr
    refine ⟨created, expires.trans (Duration.expiry_eq nonneg d), ?_, ?_⟩
    · rw [expires]
      exact Duration.le_expiry fits d
    · intro t p s inScope retains holds
      rw [retains.returns_iff holds, live, expires, Duration.lt_expiry_iff nonneg inScope]
  · intro c c' d d'
    exact ⟨fun least => Duration.expiry_bounds least d, Duration.expiry_mono⟩
  · intro settings c pairs made made' records accepted built r hr t p s inScope early retains holds
    obtain ⟨-, expires⟩ := dated_of_mem_buildBatch built hr
    rw [retains.returns_iff holds, live, expires]
    exact Duration.lt_expiry_of_lt_second (Settings.second_le_lifetime accepted) inScope early

/-- A record that lives for three seconds and a half, and one written behind it; the first is still
returned in the last millisecond of its life, and not in the next. -/
theorem returned_for_its_lifetime_to_the_end :
    let key : Key := ⟨"o", "t", "a", "u"⟩
    let r : Record Nat := ⟨0, key, 2, 5, 3505⟩
    let built : MemoryStore Nat := { minted := 1 }
    let other : Record Nat := ⟨1, key, 3, 6, 9⟩
    let s := ((built.write 6 [r]).mint.2).write 7 [other]
    let settings : Settings := { recordLifetime := .ofMillis 3500 }
    buildBatch 5 (.ofMillis 3500) [(key, 2)] ({} : MemoryStore Nat) = (.ok [r], built) ∧
      Returns 3504 ⟨[]⟩ s r ∧ ¬ Returns 3505 ⟨[]⟩ s r ∧ settings.fault? = none ∧
      Returns 1004 ⟨[]⟩ s r := by
  intro key r built other s settings
  have made : buildBatch 5 (.ofMillis 3500) [(key, 2)] ({} : MemoryStore Nat) = (.ok [r], built) :=
    rfl
  have retains (t : Int) (late : 7 ≤ t) : Retains t r s :=
    .write (.mint (.given List.mem_cons_self (List.nodup_singleton _))) (.inl late) (by decide)
  have holds : Predicate.holds ⟨[]⟩ r.row = true := by decide
  have accepted : settings.fault? = none := by decide
  obtain ⟨exact, -, second⟩ := @returned_for_its_lifetime (MemoryStore Nat) Nat _
  have span := (exact 5 (.ofMillis 3500) _ _ _ _ (by decide) (by decide) made r
    List.mem_cons_self).2.2.2
  refine ⟨made, ?_, ?_, accepted, ?_⟩
  · exact (span 3504 ⟨[]⟩ s (by decide) (retains _ (by decide)) holds).mpr (by decide)
  · exact fun shown => absurd ((span 3505 ⟨[]⟩ s (by decide) (retains _ (by decide)) holds).mp shown)
      (by decide)
  · exact second settings 5 _ _ _ _ accepted made r List.mem_cons_self 1004 ⟨[]⟩ s (by decide)
      (by decide) (retains _ (by decide)) holds

end TraceTally
