import Testnet.Genesis.Compose
import Testnet.Proofs.Genesis.Text
import Testnet.Proofs.Run
import Testnet.Proofs.Timestamp

/-!
# Composing a genesis again

The key and the overrides are put on top of a genesis in such a way that putting them on once more
changes nothing, unless the clock is asked and has gone on. So a genesis that was written is composed
to itself. All that the clock can ever change is the timestamp.
-/

namespace Testnet.Genesis

variable {g g' : Genesis} {bios : Node} {o : Overrides} {now later : Timestamp} {files : FileTree}
  {path : Option Path}

namespace Overrides

theorem timestamp_of_asksClock (h : o.AsksClock) (below : String) :
    o.timestamp now below = .ok now.text := if_pos h

theorem timestamp_of_not_asksClock (h : ¬ o.AsksClock) (below : String) :
    o.timestamp now below = normalTimestamp (o.initialTimestamp.getD below) := if_neg h

/-- A timestamp that came out once comes out again, if the clock is not asked or shows the same. -/
theorem timestamp_again {below timestamp : String} (hclock : o.AsksClock → later = now)
    (h : o.timestamp now below = .ok timestamp) : o.timestamp later timestamp = .ok timestamp := by
  by_cases hasks : o.AsksClock
  · rw [timestamp_of_asksClock hasks] at h ⊢
    rw [hclock hasks]
    exact h
  · rw [timestamp_of_not_asksClock hasks] at h ⊢
    cases hgiven : o.initialTimestamp with
    | none =>
      rw [hgiven] at h
      exact normalTimestamp_idem h
    | some given =>
      rw [hgiven] at h
      exact h

/-- A genesis as it would have come out at another time. -/
def restamp (o : Overrides) (later : Timestamp) (g : Genesis) : Genesis :=
  if o.AsksClock then { g with initialTimestamp := later.text } else g

theorem restamp_of_asksClock (h : o.AsksClock) (g : Genesis) :
    o.restamp later g = { g with initialTimestamp := later.text } := if_pos h

theorem restamp_of_not_asksClock (h : ¬ o.AsksClock) (g : Genesis) : o.restamp later g = g :=
  if_neg h

end Overrides

/-- What finishing a genesis does to each of its parts. -/
theorem finish_eq_ok_iff : g.finish bios o now = .ok g' ↔ ∃ key timestamp,
    bios.firstPublicKey = some key ∧
    o.timestamp now g.initialTimestamp = .ok timestamp ∧
    g' = ⟨timestamp, key, overrideLimits g.limits o, g.extra⟩ := by
  unfold finish override
  cases bios.firstPublicKey with
  | none => simp
  | some key =>
    dsimp only
    cases o.timestamp now g.initialTimestamp with
    | error e => simp
    | ok timestamp => simp [eq_comm]

/-- A genesis is composed by finishing the one that it is based on. -/
theorem compose_eq_ok_iff :
    (compose files path bios o now).value = .ok g' ↔
      ∃ g, (base files path).value = .ok g ∧ g.finish bios o now = .ok g' := by
  unfold compose
  rw [Logged.value_bind]
  cases (base files path).value with
  | error e => simp
  | ok g => simp

/-- All that a genesis takes from the bios node is its first key. -/
theorem compose_congr {bios' : Node} (h : bios.firstPublicKey = bios'.firstPublicKey) :
    compose files path bios o now = compose files path bios' o now := by
  simp only [compose, finish, h]

/-- With a key, nothing but the file and the timestamp can stop a genesis. -/
theorem error_of_compose {key : String} (hkey : bios.firstPublicKey = some key) {why : Fault}
    (h : (compose files path bios o now).value = .error why) :
    (∃ fault, why = .file fault) ∨ ∃ bad, why = .timestamp bad := by
  unfold compose finish at h
  rw [Logged.value_bind, hkey] at h
  split at h
  case h_1 fault _ =>
    cases h
    exact .inl ⟨fault, rfl⟩
  case h_2 g _ =>
    rw [Logged.value_pure] at h
    dsimp only at h
    split at h
    · cases h
    · cases h
      exact .inr ⟨_, rfl⟩

theorem overrideLimits_idem (l : Limits) (o : Overrides) :
    overrideLimits (overrideLimits l o) o = overrideLimits l o := by
  obtain ⟨block, transaction, timestamp⟩ := o
  cases block <;> cases transaction <;> rfl

theorem finish_again (hclock : o.AsksClock → later = now) (h : g.finish bios o now = .ok g') :
    g'.finish bios o later = .ok g' := by
  obtain ⟨key, timestamp, hkey, htimestamp, rfl⟩ := finish_eq_ok_iff.mp h
  refine finish_eq_ok_iff.mpr
    ⟨key, timestamp, hkey, Overrides.timestamp_again hclock htimestamp, ?_⟩
  rw [overrideLimits_idem]

theorem finish_later (g : Genesis) (bios : Node) (o : Overrides) (now later : Timestamp) :
    g.finish bios o later = o.restamp later <$> g.finish bios o now := by
  unfold finish override
  cases bios.firstPublicKey with
  | none => rfl
  | some key =>
    by_cases hasks : o.AsksClock
    · simp only [Overrides.timestamp_of_asksClock hasks]
      show _ = Except.ok (o.restamp later _)
      rw [Overrides.restamp_of_asksClock hasks]
    · simp only [Overrides.timestamp_of_not_asksClock hasks]
      cases normalTimestamp (o.initialTimestamp.getD g.initialTimestamp) with
      | error e => rfl
      | ok timestamp =>
        show _ = Except.ok (o.restamp later _)
        rw [Overrides.restamp_of_not_asksClock hasks]

/-- At another time the same genesis is composed, with another timestamp at most. -/
theorem value_compose_later (files : FileTree) (path : Option Path) (bios : Node) (o : Overrides)
    (now later : Timestamp) : (compose files path bios o later).value =
      o.restamp later <$> (compose files path bios o now).value := by
  unfold compose
  rw [Logged.value_bind, Logged.value_bind]
  cases (base files path).value with
  | error e => rfl
  | ok g => exact finish_later g bios o now later

theorem passed_nil : Passed [] := ⟨List.Pairwise.nil, nofun, nofun, nofun⟩

/-- What a genesis passes on comes from the file it was read from, or there is nothing. -/
theorem passed_of_base (h : (base files path).value = .ok g)
    (hwhole : ∀ f ∈ g.extra, f.2.IsWhole) : Passed g.extra := by
  unfold base at h
  cases path with
  | none =>
    cases h
    exact passed_nil
  | some path =>
    dsimp only at h
    split at h
    · exact passed_of_load h hwhole
    · cases h
      exact passed_nil

/-- Composing from the text of a composed genesis gives it back. -/
theorem compose_again {written : Path} {bios : Node} {after : FileTree}
    (hclock : o.AsksClock → later = now) (h : (compose files path bios o now).value = .ok g')
    (hwhole : ∀ g, (base files path).value = .ok g → ∀ f ∈ g.extra, f.2.IsWhole)
    (hexists : after.exists? written = true)
    (htext : after.readText written = some g'.toJson.indented) :
    (compose after (some written) bios o later).value = .ok g' := by
  obtain ⟨g, hg, hfinish⟩ := compose_eq_ok_iff.mp h
  obtain ⟨key, timestamp, _, _, rfl⟩ := finish_eq_ok_iff.mp hfinish
  have hpassed : Passed g.extra := passed_of_base hg (hwhole g hg)
  have hload : load after written = .ok ⟨timestamp, key, overrideLimits g.limits o, g.extra⟩ :=
    load_text hpassed htext
  have hbase : (base after (some written)).value =
      .ok ⟨timestamp, key, overrideLimits g.limits o, g.extra⟩ := by
    unfold base
    dsimp only
    rw [if_pos hexists, Logged.value_bind]
    exact hload
  exact compose_eq_ok_iff.mpr ⟨_, hbase, finish_again hclock hfinish⟩

end Testnet.Genesis
