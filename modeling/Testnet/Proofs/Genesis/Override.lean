import Testnet.Proofs.Genesis.Compose
import Testnet.Proofs.Timestamp.Grammar

/-!
# Overriding once and for all

Overriding gives a genesis the canonical text of its time, cut down to the millisecond. After that
neither the same overrides nor none change it any more, however late they are put on. Only overrides
that ask for the clock leave the time at which they are put on, so they change it again later.
-/

namespace Testnet.Genesis

variable {g g' : Genesis} {o : Overrides} {now later : Timestamp}

/-- What overriding does to each part of a genesis. -/
theorem override_eq_ok_iff : g.override o now = (g', .ok ()) ↔ ∃ timestamp,
    o.timestamp now g.initialTimestamp = .ok timestamp ∧
    g' = ⟨timestamp, g.initialKey, overrideLimits g.limits o, g.extra⟩ := by
  unfold override
  dsimp only
  cases o.timestamp now g.initialTimestamp with
  | error e => simp
  | ok timestamp => simp [eq_comm]

/-- A text is written out in full exactly if it stands for a timestamp. -/
theorem normalTimestamp_eq_ok_iff {s text : String} :
    normalTimestamp s = .ok text ↔ ∃ t, Timestamp.Denotes s t ∧ text = t.text := by
  unfold normalTimestamp
  simp only [← Timestamp.ofText_eq_ok_iff]
  cases Timestamp.ofText s with
  | error why => simp
  | ok t => simp [eq_comm]

/-- A genesis with a time that is written out in full is as it is without overrides. -/
theorem override_none (h : normalTimestamp g.initialTimestamp = .ok g.initialTimestamp) :
    g.override .none later = (g, .ok ()) :=
  override_eq_ok_iff.mpr ⟨g.initialTimestamp, h, rfl⟩

theorem override_again (hclock : o.AsksClock → later = now) (h : g.override o now = (g', .ok ())) :
    g'.override o later = (g', .ok ()) := by
  obtain ⟨timestamp, htimestamp, rfl⟩ := override_eq_ok_iff.mp h
  exact override_eq_ok_iff.mpr
    ⟨timestamp, Overrides.timestamp_again hclock htimestamp, by rw [overrideLimits_idem]⟩

/-- Overrides that ask for the clock always go through. They leave the canonical text of its time,
which stays until the clock is asked again. -/
theorem override_of_asksClock (hasks : o.AsksClock) (hnow : now.Valid) : ∃ g',
    g.override o now = (g', .ok ()) ∧ Timestamp.IsCanonical g'.initialTimestamp now.floor ∧
      g'.override .none later = (g', .ok ()) ∧
      g'.override o later = ({ g' with initialTimestamp := later.text }, .ok ()) := by
  refine ⟨_, override_eq_ok_iff.mpr ⟨_, Overrides.timestamp_of_asksClock hasks _, rfl⟩, ?_, ?_, ?_⟩
  · exact (Timestamp.isCanonical_iff hnow.floor).mpr now.text_floor.symm
  · apply override_none
    dsimp only
    rw [normalTimestamp, Timestamp.ofText_text hnow]
    dsimp only
    rw [now.text_floor]
  · refine override_eq_ok_iff.mpr ⟨_, Overrides.timestamp_of_asksClock hasks _, ?_⟩
    rw [overrideLimits_idem]

/-- The time of a genesis after overriding is the canonical text of what the override, or else the
time before, stands for, down to the millisecond; and overriding again leaves all as it is. Here the
clock is not asked, so what it shows does not matter. -/
theorem override_canonical (g g' : Genesis) (o : Overrides) (now : Timestamp)
    (hclock : ¬ o.AsksClock) (h : g.override o now = (g', .ok ())) :
    ∃ t : Timestamp,
      Timestamp.Denotes (o.initialTimestamp.getD g.initialTimestamp) t ∧
      Timestamp.IsCanonical g'.initialTimestamp t.floor ∧
      Timestamp.Denotes g'.initialTimestamp t.floor ∧
      ∀ later, g'.override o later = (g', .ok ()) ∧ g'.override .none later = (g', .ok ()) := by
  have hagain (later : Timestamp) : g'.override o later = (g', .ok ()) :=
    override_again (absurd · hclock) h
  obtain ⟨timestamp, htimestamp, rfl⟩ := override_eq_ok_iff.mp h
  rw [Overrides.timestamp_of_not_asksClock hclock] at htimestamp
  obtain ⟨t, ht, rfl⟩ := normalTimestamp_eq_ok_iff.mp htimestamp
  refine ⟨t, ht, ?_, ?_, fun later => ⟨hagain later, ?_⟩⟩
  · show Timestamp.IsCanonical t.text t.floor
    exact (Timestamp.isCanonical_iff ht.valid.floor).mpr t.text_floor.symm
  · show Timestamp.Denotes t.text t.floor
    exact Timestamp.ofText_eq_ok_iff.mp (Timestamp.ofText_text ht.valid)
  · exact override_none (normalTimestamp_idem htimestamp)

/-- A leap second before the year zero, with more digits than are kept. -/
theorem override_canonical_of_leap :
    let o : Overrides := ⟨some 7, none, some " -7-1-31T23:59: 60.98765432109"⟩
    let now : Timestamp := ⟨2024, 2, 29, 12, 0, 0, 0⟩
    ¬ o.AsksClock ∧ ∃ g' : Genesis, standard.override o now = (g', .ok ()) ∧
      g'.initialTimestamp = "-0007-01-31T23:59:60.987" ∧ g'.override .none now = (g', .ok ()) := by
  intro o now
  have hclock : ¬ o.AsksClock := by decide
  have htimestamp : normalTimestamp " -7-1-31T23:59: 60.98765432109" =
      .ok "-0007-01-31T23:59:60.987" := by decide +kernel
  have hoverride : standard.override o now = (_, .ok ()) := override_eq_ok_iff.mpr
    ⟨_, (Overrides.timestamp_of_not_asksClock hclock _).trans htimestamp, rfl⟩
  obtain ⟨_, _, _, _, hlater⟩ := override_canonical standard _ o now hclock hoverride
  exact ⟨hclock, _, hoverride, rfl, (hlater now).2⟩

end Testnet.Genesis
