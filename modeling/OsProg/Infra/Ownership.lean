import Mathlib.Data.List.Count
import Mathlib.Data.List.Induction
import Mathlib.Data.List.Nodup
import OsProg.Infra.StepRun

/-!
# Acquiring and releasing

The resources of a program, such as descriptors, are acquired and released one at a time, and
the same name may be acquired again. What is held is a list in which each name stands as
often as it is owned.

* `counted_run` — of each name, what was acquired and not yet released is held
* `Tidy` — only what is owned is released, and in the end all of it has been, once each
* `tidy_iff` — a run of `Use.step` decides that
* `inTurn` — resources that are used one after the other
* `held_length_le` — a table bounds what can be held
-/

namespace OsProg.Infra

inductive Use (ρ : Type) where
  | acquire (r : ρ)
  | release (r : ρ)
  deriving DecidableEq, Repr

variable {ρ : Type} [DecidableEq ρ]

/-- What is held after a use. What is not held cannot be released. -/
def Use.step (held : List ρ) : Use ρ → Option (List ρ)
  | .acquire r => some (r :: held)
  | .release r => if r ∈ held then some (held.erase r) else none

/-- Nothing is released that is not owned, and nothing is left. -/
structure Tidy (uses : List (Use ρ)) : Prop where
  owned : ∀ before r, before ++ [.release r] <+: uses →
    before.count (.release r) < before.count (.acquire r)
  settled : ∀ r, uses.count (.release r) = uses.count (.acquire r)

variable {uses : List (Use ρ)} {held : List ρ}

/-! ## One use -/

theorem step_release_iff {r : ρ} {held' : List ρ} :
    Use.step held (.release r) = some held' ↔ r ∈ held ∧ held.erase r = held' := by
  by_cases hr : r ∈ held
  · simp [Use.step, hr]
  · simp [Use.step, hr]

/-- A use moves one count by one, and what is held with it. -/
theorem step_count {u : Use ρ} {held' : List ρ} (h : Use.step held u = some held') (r : ρ) :
    held'.count r + [u].count (.release r) = held.count r + [u].count (.acquire r) := by
  cases u with
  | acquire s =>
    cases h
    simp [List.count_cons]
  | release s =>
    obtain ⟨hs, rfl⟩ := step_release_iff.mp h
    have hpos := List.count_pos_iff.mpr hs
    by_cases hrs : s = r
    · subst hrs
      simp [List.count_erase_self]
      omega
    · simp [List.count_erase_of_ne (Ne.symm hrs), hrs]

/-! ## Runs -/

/-- Of each name, what is held is what was acquired and not yet released. -/
def Counted (before : List (Use ρ)) (held : List ρ) : Prop :=
  ∀ r, held.count r + before.count (.release r) = before.count (.acquire r)

theorem counted_step {before : List (Use ρ)} {u : Use ρ} {held' : List ρ}
    (hc : Counted before held) (h : Use.step held u = some held') :
    Counted (before ++ [u]) held' := by
  intro r
  have hu := step_count h r
  have hb := hc r
  rw [List.count_append, List.count_append]
  omega

theorem counted_run (h : uses.foldlM Use.step [] = some held) : Counted uses held :=
  @foldlM_invariant _ _ Use.step Counted (fun _ _ _ _ hc hs => counted_step hc hs) uses [] _ _
    (fun _ => rfl) h

/-- A run goes through exactly when nothing is released that is not owned. -/
theorem run_iff : (∃ held, uses.foldlM Use.step [] = some held) ↔
    ∀ before r, before ++ [.release r] <+: uses →
      before.count (.release r) < before.count (.acquire r) := by
  constructor
  · rintro ⟨held, hrun⟩ before r ⟨after, rfl⟩
    obtain ⟨held₁, hrun, -⟩ := foldlM_append_iff.mp hrun
    obtain ⟨held₂, hrun, hlast⟩ := foldlM_append_iff.mp hrun
    obtain ⟨held₃, hstep, -⟩ := foldlM_cons_iff.mp hlast
    have hpos := List.count_pos_iff.mpr (step_release_iff.mp hstep).1
    have hc := counted_run hrun r
    omega
  · induction uses using List.reverseRecOn with
    | nil => exact fun _ => ⟨[], rfl⟩
    | append_singleton uses u ih =>
      intro howned
      obtain ⟨held, hrun⟩ := ih fun before r h => howned before r (h.trans (List.prefix_append ..))
      cases u with
      | acquire r => exact ⟨r :: held, foldlM_append_iff.mpr ⟨held, hrun, rfl⟩⟩
      | release r =>
        have hc := counted_run hrun r
        have hlt := howned uses r List.prefix_rfl
        have hr : r ∈ held := List.count_pos_iff.mp (by omega)
        exact ⟨held.erase r, foldlM_append_iff.mpr ⟨held, hrun,
          foldlM_cons_iff.mpr ⟨_, step_release_iff.mpr ⟨hr, rfl⟩, rfl⟩⟩⟩

theorem tidy_iff : Tidy uses ↔ uses.foldlM Use.step [] = some [] := by
  constructor
  · rintro ⟨howned, hsettled⟩
    obtain ⟨held, hrun⟩ := run_iff.mpr howned
    have hnone : ∀ r, r ∉ held := fun r => by
      have hc := counted_run hrun r
      have hs := hsettled r
      exact List.count_eq_zero.mp (by omega)
    rw [hrun, List.eq_nil_iff_forall_not_mem.mpr hnone]
  · intro hrun
    refine ⟨run_iff.mp ⟨[], hrun⟩, fun r => ?_⟩
    have hc := counted_run hrun r
    rwa [List.count_nil, Nat.zero_add] at hc

/-- Acquiring one after the other. -/
theorem run_acquires : ∀ (rs held : List ρ),
    (rs.map Use.acquire).foldlM Use.step held = some (rs.reverse ++ held)
  | [], _ => rfl
  | r :: rs, held => by
    rw [List.map_cons, foldlM_cons_iff]
    refine ⟨r :: held, rfl, ?_⟩
    rw [run_acquires rs, List.reverse_cons, List.append_assoc]
    rfl

/-- Of what was acquired, all but the last is held when only that is released. -/
theorem run_release_last (rs : List ρ) (r : ρ) :
    ((rs ++ [r]).map Use.acquire ++ [Use.release r]).foldlM Use.step [] = some rs.reverse := by
  rw [foldlM_append_iff]
  refine ⟨_, run_acquires .., foldlM_cons_iff.mpr ⟨_, ?_, rfl⟩⟩
  rw [step_release_iff, List.reverse_concat, List.append_nil]
  exact ⟨List.mem_cons_self, List.erase_cons_head ..⟩

/-! ## One after the other -/

/-- Each is released before the next one is acquired. -/
def inTurn (rs : List ρ) : List (Use ρ) := rs.flatMap fun r => [.acquire r, .release r]

theorem step_release_own (r : ρ) : Use.step [r] (.release r) = some [] :=
  step_release_iff.mpr ⟨List.mem_singleton_self r, List.erase_cons_head ..⟩

theorem run_inTurn (rs : List ρ) : (inTurn rs).foldlM Use.step [] = some [] := by
  induction rs with
  | nil => rfl
  | cons r rs ih =>
    exact foldlM_cons_iff.mpr ⟨[r], rfl, foldlM_cons_iff.mpr ⟨[], step_release_own r, ih⟩⟩

/-- Of these there is never more than one, even when the last one is not released. -/
theorem held_inTurn {rs : List ρ} {last before : List (Use ρ)}
    (hlast : last = [] ∨ ∃ r, last = [.acquire r]) (h : before <+: inTurn rs ++ last) :
    ∃ held, before.foldlM Use.step [] = some held ∧ held.length ≤ 1 := by
  induction rs generalizing before with
  | nil =>
    replace h : before <+: last := h
    rcases hlast with rfl | ⟨r, rfl⟩
    · rw [List.prefix_nil.mp h]
      exact ⟨[], rfl, Nat.zero_le 1⟩
    · rcases List.prefix_cons_iff.mp h with rfl | ⟨before', rfl, h'⟩
      · exact ⟨[], rfl, Nat.zero_le 1⟩
      · rw [List.prefix_nil.mp h']
        exact ⟨[r], rfl, Nat.le_refl 1⟩
  | cons r rs ih =>
    replace h : before <+: .acquire r :: .release r :: (inTurn rs ++ last) := h
    rcases List.prefix_cons_iff.mp h with rfl | ⟨before₁, rfl, h₁⟩
    · exact ⟨[], rfl, Nat.zero_le 1⟩
    · rcases List.prefix_cons_iff.mp h₁ with rfl | ⟨before₂, rfl, h₂⟩
      · exact ⟨[r], rfl, Nat.le_refl 1⟩
      · obtain ⟨held, hrun, hheld⟩ := ih h₂
        exact ⟨held, foldlM_cons_iff.mpr ⟨[r], rfl, foldlM_cons_iff.mpr
          ⟨[], step_release_own r, hrun⟩⟩, hheld⟩

/-! ## Tables -/

/-- Only what is in the table and not held is handed out. -/
def Allots (table : List ρ) (uses : List (Use ρ)) : Prop :=
  ∀ before r, before ++ [.acquire r] <+: uses →
    r ∈ table ∧ before.count (.acquire r) ≤ before.count (.release r)

theorem Allots.of_prefix {table : List ρ} {before : List (Use ρ)} (h : Allots table uses)
    (hbefore : before <+: uses) : Allots table before :=
  fun before' r hr => h before' r (hr.trans hbefore)

/-- What is held is in the table, and once. -/
theorem allots_run {table : List ρ} (h : Allots table uses)
    (hrun : uses.foldlM Use.step [] = some held) : held.Nodup ∧ held ⊆ table := by
  induction uses using List.reverseRecOn generalizing held with
  | nil =>
    cases hrun
    exact ⟨List.nodup_nil, List.nil_subset table⟩
  | append_singleton uses u ih =>
    obtain ⟨held₁, hrun₁, hlast⟩ := foldlM_append_iff.mp hrun
    obtain ⟨held₂, hstep, hnil⟩ := foldlM_cons_iff.mp hlast
    cases hnil
    obtain ⟨hnodup, hsubset⟩ := ih (h.of_prefix (List.prefix_append ..)) hrun₁
    cases u with
    | acquire r =>
      cases hstep
      obtain ⟨hr, hcount⟩ := h uses r List.prefix_rfl
      have hc := counted_run hrun₁ r
      refine ⟨List.nodup_cons.mpr ⟨?_, hnodup⟩, List.cons_subset.mpr ⟨hr, hsubset⟩⟩
      exact List.count_eq_zero.mp (by omega)
    | release r =>
      obtain ⟨-, rfl⟩ := step_release_iff.mp hstep
      exact ⟨hnodup.erase r, fun s hs => hsubset (List.mem_of_mem_erase hs)⟩

/-- **No more is held than there is in the table.** -/
theorem held_length_le {table : List ρ} (h : Allots table uses)
    (hrun : uses.foldlM Use.step [] = some held) : held.length ≤ table.length := by
  obtain ⟨hnodup, hsubset⟩ := allots_run h hrun
  exact (List.subperm_of_subset hnodup hsubset).length_le

/-- What is never released has to be distinct. -/
theorem allots_acquires_iff {table rs : List ρ} :
    Allots table (rs.map .acquire) ↔ rs.Nodup ∧ rs ⊆ table := by
  constructor
  · intro h
    obtain ⟨hnodup, hsubset⟩ := allots_run h (run_acquires rs [])
    rw [List.append_nil] at hnodup hsubset
    exact ⟨List.nodup_reverse.mp hnodup, fun r hr => hsubset (List.mem_reverse.mpr hr)⟩
  · rintro ⟨hnodup, hsubset⟩ before r ⟨after, heq⟩
    rw [List.append_assoc, eq_comm, List.map_eq_append_iff] at heq
    obtain ⟨rs₁, rs₂, rfl, rfl, hrs₂⟩ := heq
    obtain ⟨s, rs₃, rfl, hs, -⟩ := List.map_eq_cons_iff.mp hrs₂
    cases hs
    refine ⟨hsubset (by simp), Nat.le_trans (Nat.le_of_eq (List.count_eq_zero.mpr ?_))
      (Nat.zero_le _)⟩
    intro hmem
    obtain ⟨s, hs, heq⟩ := List.mem_map.mp hmem
    cases heq
    exact (List.disjoint_of_nodup_append hnodup) hs List.mem_cons_self

end OsProg.Infra
