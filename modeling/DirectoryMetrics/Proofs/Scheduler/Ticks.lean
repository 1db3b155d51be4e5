import DirectoryMetrics.Collection.Scheduler
import DirectoryMetrics.Proofs.Metrics.Sorted
import Mathlib.Algebra.Order.BigOperators.Group.List
import Mathlib.Algebra.Order.Ring.Nat
import Mathlib.Data.List.Forall2

namespace DirectoryMetrics

/-! What a tick commits. Directories answer as they like and take their time, but each set commits
one batch, and the tick ends with the last of them. -/

namespace Plan

variable {plan : Plan} {start : Nat} {commits : List (Nat × Job)}

/-- What a tick may commit: one batch for each set, whatever is in it and however long it takes.
Of sets that are collected side by side any may end first. -/
def Collects (plan : Plan) (start : Nat) (commits : List (Nat × Job)) : Prop :=
  ∃ jobs, List.Forall₂ (fun set job => job.tags = set.tags) plan.jobs jobs ∧
    if plan.parallel then
      commits.Perm (jobs.map fun job => (start + job.duration, job)) ∧
        commits.Pairwise fun a b => a.1 ≤ b.1
    else commits = inTurn start jobs

theorem start_le_latest (start : Nat) (commits : List (Nat × Job)) :
    start ≤ latest start commits := by
  induction commits generalizing start with
  | nil => exact le_rfl
  | cons commit rest ih => exact (Nat.le_max_left _ _).trans (ih _)

theorem le_latest {commit : Nat × Job} (hmember : commit ∈ commits) (start : Nat) :
    commit.1 ≤ latest start commits := by
  induction commits generalizing start with
  | nil => cases hmember
  | cons first rest ih =>
      rcases List.mem_cons.mp hmember with rfl | later
      · exact (Nat.le_max_right _ _).trans (start_le_latest _ rest)
      · exact ih later _

theorem latest_le {time : Nat} (hstarted : start ≤ time)
    (heach : ∀ commit ∈ commits, commit.1 ≤ time) : latest start commits ≤ time := by
  induction commits generalizing start with
  | nil => exact hstarted
  | cons first rest ih =>
      rw [List.forall_mem_cons] at heach
      exact ih (max_le hstarted heach.1) heach.2

theorem map_snd_inTurn (start : Nat) (jobs : List Job) :
    (inTurn start jobs).map Prod.snd = jobs := by
  induction jobs generalizing start with
  | nil => rfl
  | cons job rest ih => rw [inTurn, List.map_cons, ih]

theorem le_inTurn {jobs : List Job} {commit : Nat × Job} (hmember : commit ∈ inTurn start jobs) :
    start ≤ commit.1 := by
  induction jobs generalizing start with
  | nil => cases hmember
  | cons job rest ih =>
      rcases List.mem_cons.mp hmember with rfl | later
      · exact Nat.le_add_right _ _
      · exact (Nat.le_add_right _ _).trans (ih later)

theorem inTurn_ordered (start : Nat) (jobs : List Job) :
    (inTurn start jobs).Pairwise fun a b => a.1 ≤ b.1 := by
  induction jobs generalizing start with
  | nil => exact .nil
  | cons job rest ih => exact .cons (fun _ later => le_inTurn later) (ih _)

theorem map_eq_of_forall₂ {α β γ : Type} {R : α → β → Prop} {f : α → γ} {g : β → γ}
    (heach : ∀ a b, R a b → g b = f a) {as : List α} {bs : List β} (hsame : List.Forall₂ R as bs) :
    bs.map g = as.map f := by
  induction hsame with
  | nil => rfl
  | cons head _ ih => rw [List.map_cons, List.map_cons, heach _ _ head, ih]

theorem map_tags_of_forall₂ {sets jobs : List Job}
    (hsame : List.Forall₂ (fun set job => job.tags = set.tags) sets jobs) :
    jobs.map (·.tags) = sets.map (·.tags) :=
  map_eq_of_forall₂ (fun _ _ tags => tags) hsame

theorem Collects.perm (hcollected : plan.Collects start commits) :
    (commits.map (·.2.tags)).Perm (plan.jobs.map (·.tags)) := by
  obtain ⟨jobs, same, made⟩ := hcollected
  rw [← map_tags_of_forall₂ same]
  split at made
  · simpa [Function.comp_def] using made.1.map (·.2.tags)
  · have htags := congrArg (List.map (·.tags)) (map_snd_inTurn start jobs)
    rw [List.map_map] at htags
    exact .of_eq (made ▸ htags)

theorem Collects.inOrder (hcollected : plan.Collects start commits)
    (hsequential : plan.parallel = false) :
    commits.map (·.2.tags) = plan.jobs.map (·.tags) := by
  obtain ⟨jobs, same, made⟩ := hcollected
  rw [hsequential, if_neg Bool.false_ne_true] at made
  have htags := congrArg (List.map (·.tags)) (map_snd_inTurn start jobs)
  rw [List.map_map] at htags
  rw [made, ← map_tags_of_forall₂ same]
  exact htags

theorem Collects.ordered (hcollected : plan.Collects start commits) :
    commits.Pairwise fun a b => a.1 ≤ b.1 := by
  obtain ⟨jobs, _, made⟩ := hcollected
  split at made
  · exact made.2
  · exact made ▸ inTurn_ordered start jobs

theorem Collects.start_le (hcollected : plan.Collects start commits) :
    ∀ commit ∈ commits, start ≤ commit.1 := by
  obtain ⟨jobs, _, made⟩ := hcollected
  intro commit member
  split at made
  · obtain ⟨job, _, rfl⟩ := List.mem_map.mp (made.1.mem_iff.mp member)
    exact Nat.le_add_right _ _
  · exact le_inTurn (made ▸ member)

theorem Collects.eq_nil (hcollected : plan.Collects start commits) (hempty : plan.jobs = []) :
    commits = [] := by
  have htags := hcollected.perm
  rw [hempty, List.map_nil, List.perm_nil, List.map_eq_nil_iff] at htags
  exact htags

theorem pairwise_insertBy (commit : Nat × Job) {commits : List (Nat × Job)}
    (hordered : commits.Pairwise fun a b => a.1 ≤ b.1) :
    (Sorted.insertBy (fun a b => decide (a.1 < b.1)) commit commits).Pairwise
      fun a b => a.1 ≤ b.1 := by
  induction commits with
  | nil => exact List.pairwise_singleton _ _
  | cons first rest ih =>
      obtain ⟨before, later⟩ := List.pairwise_cons.mp hordered
      rw [Sorted.insertBy]
      split
      · rename_i less
        have less : first.1 < commit.1 := by simpa using less
        refine .cons (fun other member => ?_) (ih later)
        rcases List.mem_cons.mp ((Sorted.insertBy_perm _ commit rest).mem_iff.mp member) with
          rfl | inRest
        · exact less.le
        · exact before other inRest
      · rename_i notLess
        have hleast : commit.1 ≤ first.1 := by simpa using notLess
        exact .cons (List.forall_mem_cons.mpr
          ⟨hleast, fun other member => hleast.trans (before other member)⟩) hordered

theorem sideBySide_ordered (start : Nat) (jobs : List Job) :
    (sideBySide start jobs).Pairwise fun a b => a.1 ≤ b.1 := by
  rw [sideBySide]
  induction jobs.map fun job => (start + job.duration, job) with
  | nil => exact .nil
  | cons commit rest ih => exact pairwise_insertBy commit ih

theorem collects_of_answers {jobs : List Job}
    (hsame : List.Forall₂ (fun set job => job.tags = set.tags) plan.jobs jobs) :
    plan.Collects start ({ plan with jobs }.commits start) := by
  refine ⟨jobs, hsame, ?_⟩
  rw [commits]
  split
  · exact ⟨Sorted.sortBy_perm _ _, sideBySide_ordered start jobs⟩
  · rfl

theorem collects_commits (plan : Plan) (start : Nat) :
    plan.Collects start (plan.commits start) :=
  collects_of_answers (List.forall₂_same.mpr fun _ _ => rfl)

theorem inTurn_le {jobs : List Job} {commit : Nat × Job} (hmember : commit ∈ inTurn start jobs) :
    commit.1 ≤ start + (jobs.map (·.duration)).sum := by
  induction jobs generalizing start with
  | nil => cases hmember
  | cons job rest ih =>
      rw [List.map_cons, List.sum_cons]
      rcases List.mem_cons.mp hmember with rfl | later
      · dsimp only
        omega
      · have := ih later
        omega

theorem commits_le {commit : Nat × Job} (hmember : commit ∈ plan.commits start) :
    commit.1 ≤ start + (plan.jobs.map (·.duration)).sum := by
  rw [commits] at hmember
  split at hmember
  · obtain ⟨job, inJobs, rfl⟩ := List.mem_map.mp ((Sorted.sortBy_perm _ _).mem_iff.mp hmember)
    exact Nat.add_le_add_left (List.le_sum_of_mem (List.mem_map_of_mem inJobs)) start
  · exact inTurn_le hmember

theorem exists_collects {time : Nat} (hnonempty : plan.jobs ≠ []) (hlater : start ≤ time) :
    ∃ commits, plan.Collects start commits ∧ latest start commits = time := by
  obtain ⟨set, rest, eq⟩ := List.exists_cons_of_ne_nil hnonempty
  let slow : Job := { set with duration := time - start }
  let quick := rest.map fun job => { job with duration := 0 }
  have hsame : List.Forall₂ (fun set job => job.tags = set.tags) plan.jobs (slow :: quick) := by
    rw [eq]
    exact .cons rfl (List.forall₂_map_right_iff.mpr (List.forall₂_same.mpr fun _ _ => rfl))
  have htotal : ((slow :: quick).map (·.duration)).sum = time - start := by
    simp [slow, quick, Function.comp_def]
  refine ⟨_, collects_of_answers hsame, le_antisymm (latest_le hlater fun commit member => ?_) ?_⟩
  · have := commits_le member
    rw [htotal] at this
    omega
  · have hended : (time, slow) ∈ ({ plan with jobs := slow :: quick } : Plan).commits start := by
      have hsum : start + slow.duration = time := Nat.add_sub_cancel' hlater
      rw [commits]
      split
      · exact (Sorted.sortBy_perm _ _).mem_iff.mpr (hsum ▸ List.mem_cons_self)
      · exact hsum ▸ List.mem_cons_self
    exact le_latest hended start

end Plan

end DirectoryMetrics
