import Mathlib
import Timetabling.Job.Service

/-!
# The life of a job

A service runs by small steps, in any order and for any number of jobs, and each event meets a
publisher that may take or refuse it (`Run`). Between two steps the service is `Orderly`: a job with
a running task is being solved, by that task alone, and no two events are about one job, which by
then has the status that the event tells. So a job ends at most once (`Run.follows`), and only then
is the world told about it.
-/

namespace Timetabling

namespace Job

/-- The id that a step brings in. -/
def Step.newId? : Step → Option JobId
  | .submit job _ _ => some job
  | _ => none

/-- The ids that have come in, in order. -/
def submitted (steps : List Step) : List JobId := steps.filterMap Step.newId?

theorem submitted_cons (e : Step) (es : List Step) :
    submitted (e :: es) = e.newId?.toList ++ submitted es := by
  cases e <;> rfl

/-- The event tells the status. -/
def Event.Tells : Event → Status → Prop
  | .completed _ score isPartial unassignedCount, .completed result =>
    score = result.score ∧ isPartial = result.isPartial ∧
      unassignedCount = result.unassigned.length
  | .failed _ reason, .failed stored score => reason = stored ∧ score = -1
  | _, _ => False

/-- A status stays, or the job has been solved meanwhile. -/
def Status.Advances (st st' : Status) : Prop := st' = st ∨ st = .solving ∧ st'.isFinished = true

theorem Status.isFinished_ofOutcome (o : Except Infeasibility Solution) :
    (Status.ofOutcome o).isFinished = true := by
  cases o <;> rfl

theorem Status.Advances.trans {st st' st'' : Status} (h : st.Advances st')
    (h' : st'.Advances st'') : st.Advances st'' := by
  rcases h' with rfl | ⟨rfl, hfin⟩
  · exact h
  · rcases h with rfl | ⟨rfl, -⟩ <;> exact .inr ⟨rfl, hfin⟩

@[simp] theorem Event.job_ofOutcome (job : JobId) (o : Except Infeasibility Solution) :
    (Event.ofOutcome job o).job = job := by
  cases o <;> rfl

theorem Event.tells_ofOutcome (job : JobId) (o : Except Infeasibility Solution) :
    (Event.ofOutcome job o).Tells (.ofOutcome o) := by
  cases o with
  | ok result => exact ⟨rfl, rfl, rfl⟩
  | error reason => exact ⟨rfl, rfl⟩

theorem Event.Tells.isFinished {e : Event} {st : Status} (h : e.Tells st) :
    st.isFinished = true := by
  cases st with
  | solving => cases e <;> exact h.elim
  | completed result => rfl
  | failed reason score => rfl

end Job

namespace Service

open Job

variable {s s' s'' : Service} {e : Step} {es es' : List Step} {job : JobId} {st : Status}
  {publisher : Publisher} {conditions : Conditions}

/-- Steps one after the other. Each meets a publisher of its own: an event that is taken at one time
may be refused at another. -/
inductive Run : Service → List Step → Service → Prop
  | nil (s : Service) : Run s [] s
  | cons {s s' : Service} {e : Step} {es : List Step} (publisher : Publisher)
      (h : Run (s.step publisher e) es s') : Run s (e :: es) s'

/-- The events there are, on their way out or sent. -/
def events (s : Service) : List Event := s.unsent ++ s.sent

/-- What holds between two steps. -/
structure Orderly (s : Service) : Prop where
  solving : ∀ t ∈ s.running, s.status? t.job = some .solving
  apart : (s.running.map Task.job).Nodup
  told : ∀ e ∈ s.events, ∃ st, s.status? e.job = some st ∧ e.Tells st
  once : (s.events.map Event.job).Nodup

/-- `s'` comes after `s` by the steps `es`: the jobs that came in are added to the list, and each
status has stayed or advanced. -/
structure Follows (s : Service) (es : List Step) (s' : Service) : Prop where
  orderly : s'.Orderly
  list : s'.list = s.list ++ submitted es
  status : ∀ job st, s.status? job = some st → ∃ st', s'.status? job = some st' ∧ st.Advances st'

/-! ### What one step can do -/

theorem mem_list : job ∈ s.list ↔ ∃ st, s.status? job = some st :=
  Table.isSome_get?.symm.trans Option.isSome_iff_exists

theorem finish_cases (s : Service) (job : JobId) (conditions : Conditions) :
    s.finish job conditions = s ∨ ∃ t ∈ s.running, t.job = job ∧
      ∃ result, s.outcome t conditions = .ok result ∧ s.finish job conditions =
        { s.endTask job with
          jobs := s.jobs.insert job (.ofOutcome result)
          unsent := s.unsent ++ [.ofOutcome job result] } := by
  unfold finish
  split
  · exact .inl rfl
  · next t ht =>
    split
    · exact .inl rfl
    · next result hres =>
      have hjob : t.job = job := by simpa using List.find?_some ht
      exact .inr ⟨t, List.mem_of_find?_eq_some ht, hjob, result, hres, rfl⟩

theorem die_cases (s : Service) (job : JobId) (conditions : Conditions) :
    s.die job conditions = s ∨ ∃ t ∈ s.running, t.job = job ∧
      ∃ b, s.outcome t conditions = .error b ∧ s.die job conditions = s.endTask job := by
  unfold die
  split
  · exact .inl rfl
  · next t ht =>
    split
    · next b hres =>
      have hjob : t.job = job := by simpa using List.find?_some ht
      exact .inr ⟨t, List.mem_of_find?_eq_some ht, hjob, b, hres, rfl⟩
    · exact .inl rfl

theorem publish_cases (publisher : Publisher) (s : Service) (job : JobId) :
    s.publish publisher job = s ∨ ∃ e ∈ s.unsent, e.job = job ∧ s.publish publisher job =
      { s with unsent := s.unsent.filter fun e => e.job ≠ job, sent := s.sent ++ [e] } := by
  unfold publish
  split
  · exact .inl rfl
  · next e he =>
    have hjob : e.job = job := by simpa using List.find?_some he
    refine .inr ⟨e, List.mem_of_find?_eq_some he, hjob, ?_⟩
    dsimp only
    split <;> rfl

/-- A refusal changes nothing. -/
theorem publish_eq (publisher publisher' : Publisher) (s : Service) (job : JobId) :
    s.publish publisher job = s.publish publisher' job := by
  unfold publish
  split
  · rfl
  · dsimp only
    split <;> split <;> rfl

/-! ### What one step keeps -/

/-- Where no two have one key, the first with a key is the one that has it. -/
theorem find?_key_of_mem {α κ : Type} [DecidableEq κ] {key : α → κ} {l : List α} {a : α}
    (hn : (l.map key).Nodup) (ha : a ∈ l) : l.find? (fun b => key b = key a) = some a := by
  obtain ⟨b, hb⟩ : ∃ b, l.find? (fun b => key b = key a) = some b :=
    Option.isSome_iff_exists.1 (List.find?_isSome.2 ⟨a, ha, decide_eq_true rfl⟩)
  have hkey : key b = key a := by simpa using List.find?_some hb
  rw [hb, List.inj_on_of_nodup_map hn (List.mem_of_find?_eq_some hb) ha hkey]

namespace Orderly

theorem start (settings : SolverSettings) : Orderly { settings := settings } where
  solving _ ht := absurd ht List.not_mem_nil
  apart := List.nodup_nil
  told _ he := absurd he List.not_mem_nil
  once := List.nodup_nil

/-- Of a job that is being solved nothing has been told. -/
theorem job_ne (h : s.Orderly) (hjob : s.status? job = some .solving) {e : Event}
    (he : e ∈ s.events) : e.job ≠ job := by
  rintro rfl
  obtain ⟨st, hst, htells⟩ := h.told e he
  rw [hjob] at hst
  cases hst
  cases htells.isFinished

theorem submit (h : s.Orderly) (hnew : ¬ job ∈ s.list) (snapshot : Snapshot)
    (budget : Option UInt64) : (s.submit job snapshot budget).Orderly where
  solving t ht := by
    rw [status?, Service.submit, Table.get?_insert]
    split
    · rfl
    · next hne =>
      rcases List.mem_append.1 ht with ht | ht
      · exact h.solving t ht
      · rw [List.mem_singleton.1 ht] at hne; exact absurd rfl hne
  apart := by
    rw [Service.submit, List.map_append]
    refine h.apart.append (List.nodup_singleton _) (List.disjoint_singleton.2 fun hm => ?_)
    obtain ⟨t, ht, rfl⟩ := List.mem_map.1 hm
    exact hnew (mem_list.2 ⟨_, h.solving t ht⟩)
  told e he := by
    obtain ⟨st, hst, htells⟩ := h.told e he
    have hne : e.job ≠ job := fun hjob => hnew (mem_list.2 ⟨st, hjob ▸ hst⟩)
    exact ⟨st, (Table.get?_insert_of_ne _ _ hne).trans hst, htells⟩
  once := h.once

theorem endTask (h : s.Orderly) (job : JobId) : (s.endTask job).Orderly :=
  ⟨fun t ht => h.solving t (List.mem_filter.1 ht).1, h.apart.sublist (List.filter_sublist.map _),
    h.told, h.once⟩

theorem finish (h : s.Orderly) (job : JobId) (conditions : Conditions) :
    (s.finish job conditions).Orderly := by
  rcases finish_cases s job conditions with heq | ⟨t, ht, rfl, result, -, heq⟩
  · rwa [heq]
  · rw [heq]
    have hold {e : Event} (he : e ∈ s.events) : e.job ≠ t.job := h.job_ne (h.solving t ht) he
    -- the new event comes to those on their way out, before the ones sent
    have hperm : (s.unsent ++ [Event.ofOutcome t.job result] ++ s.sent).Perm
        (Event.ofOutcome t.job result :: s.events) := by
      rw [List.append_assoc]
      exact List.perm_middle
    refine ⟨fun t' ht' => ?_, (h.endTask t.job).apart, fun e he => ?_, ?_⟩
    · obtain ⟨ht', hne⟩ := List.mem_filter.1 ht'
      exact (Table.get?_insert_of_ne _ _ (by simpa using hne)).trans (h.solving t' ht')
    · rcases List.mem_cons.1 (hperm.mem_iff.1 he) with rfl | he
      · refine ⟨.ofOutcome result, ?_, Event.tells_ofOutcome t.job result⟩
        rw [Event.job_ofOutcome]
        exact Table.get?_insert_self _ _ _
      · obtain ⟨st, hst, htells⟩ := h.told e he
        exact ⟨st, (Table.get?_insert_of_ne _ _ (hold he)).trans hst, htells⟩
    · refine (hperm.map Event.job).nodup_iff.2 (List.nodup_cons.2 ⟨fun hm => ?_, h.once⟩)
      obtain ⟨e, he, hjob⟩ := List.mem_map.1 hm
      exact hold he (hjob.trans (Event.job_ofOutcome t.job result))

theorem die (h : s.Orderly) (job : JobId) (conditions : Conditions) :
    (s.die job conditions).Orderly := by
  rcases die_cases s job conditions with heq | ⟨-, -, -, -, -, heq⟩ <;> rw [heq]
  · exact h
  · exact h.endTask job

theorem publish (h : s.Orderly) (publisher : Publisher) (job : JobId) :
    (s.publish publisher job).Orderly := by
  rcases publish_cases publisher s job with heq | ⟨e, he, rfl, heq⟩
  · rwa [heq]
  · rw [heq]
    have hperm : (s.unsent.filter (fun f => f.job ≠ e.job) ++ (s.sent ++ [e])).Perm
        (e :: (s.unsent.filter (fun f => f.job ≠ e.job) ++ s.sent)) := by
      rw [← List.append_assoc]
      exact List.perm_append_singleton _ _
    have hsub : (s.unsent.filter (fun f => f.job ≠ e.job) ++ s.sent).Sublist s.events :=
      List.filter_sublist.append_right _
    refine ⟨h.solving, h.apart, fun f hf => h.told f ?_, ?_⟩
    · rcases List.mem_cons.1 (hperm.mem_iff.1 hf) with rfl | hf
      · exact List.mem_append_left _ he
      · exact hsub.subset hf
    · refine (hperm.map Event.job).nodup_iff.2
        (List.nodup_cons.2 ⟨fun hm => ?_, h.once.sublist (hsub.map _)⟩)
      obtain ⟨f, hf, hjob⟩ := List.mem_map.1 hm
      rcases List.mem_append.1 hf with hf | hf
      · exact absurd hjob (by simpa using (List.mem_filter.1 hf).2)
      · have hdisj := List.disjoint_of_nodup_append (List.map_append ▸ h.once)
        exact hdisj (List.mem_map_of_mem he) (hjob ▸ List.mem_map_of_mem hf)

theorem step (h : s.Orderly) (hnew : ∀ job ∈ e.newId?, ¬ job ∈ s.list) (publisher : Publisher) :
    (s.step publisher e).Orderly := by
  cases e with
  | submit job snapshot budget => exact h.submit (hnew job rfl) snapshot budget
  | finish job conditions => exact h.finish job conditions
  | publish job => exact h.publish publisher job
  | die job conditions => exact h.die job conditions

/-- A running task with an outcome can end, and then the event of its job is on its way out. -/
theorem finish_of_outcome (h : s.Orderly) {t : Task} (ht : t ∈ s.running)
    {result : Except Infeasibility Solution} (hres : s.outcome t conditions = .ok result) :
    (s.finish t.job conditions).status? t.job = some (.ofOutcome result) ∧
      Event.ofOutcome t.job result ∈ (s.finish t.job conditions).unsent := by
  have htask : s.task? t.job = some t := find?_key_of_mem h.apart ht
  simp only [Service.finish, htask, hres]
  exact ⟨Table.get?_insert_self _ _ _, List.mem_append_right _ (List.mem_singleton.2 rfl)⟩

/-- An event on its way out can be sent. -/
theorem mem_sent_publish (h : s.Orderly) {e : Event} (he : e ∈ s.unsent) (publisher : Publisher) :
    e ∈ (s.publish publisher e.job).sent := by
  have hunsent : (s.unsent.map Event.job).Nodup :=
    h.once.sublist ((List.sublist_append_left s.unsent s.sent).map _)
  simp only [Service.publish, find?_key_of_mem hunsent he]
  split <;> exact List.mem_append_right _ (List.mem_singleton.2 rfl)

end Orderly

theorem jobs_die (s : Service) (job : JobId) (conditions : Conditions) :
    (s.die job conditions).jobs = s.jobs := by
  rcases die_cases s job conditions with heq | ⟨-, -, -, -, -, heq⟩ <;> rw [heq]
  rfl

theorem jobs_publish (publisher : Publisher) (s : Service) (job : JobId) :
    (s.publish publisher job).jobs = s.jobs := by
  rcases publish_cases publisher s job with heq | ⟨e, -, -, heq⟩ <;> rw [heq]

namespace Follows

theorem of_jobs (ho : s'.Orderly) (hj : s'.jobs = s.jobs) (he : submitted es = []) :
    s.Follows es s' where
  orderly := ho
  list := by rw [Service.list, hj, he, List.append_nil, Service.list]
  status job st hst := ⟨st, by rw [status?, hj]; exact hst, .inl rfl⟩

theorem refl (h : s.Orderly) : s.Follows [] s := of_jobs h rfl rfl

theorem trans (h : s.Follows es s') (h' : s'.Follows es' s'') : s.Follows (es ++ es') s'' where
  orderly := h'.orderly
  list := by rw [h'.list, h.list, List.append_assoc, submitted, submitted, submitted,
    List.filterMap_append]
  status job st hst := by
    obtain ⟨st', hst', hadv⟩ := h.status job st hst
    obtain ⟨st'', hst'', hadv'⟩ := h'.status job st' hst'
    exact ⟨st'', hst'', hadv.trans hadv'⟩

theorem step (h : s.Orderly) (hnew : ∀ job ∈ e.newId?, ¬ job ∈ s.list) (publisher : Publisher) :
    s.Follows [e] (s.step publisher e) := by
  have ho := h.step hnew publisher
  cases e with
  | submit job snapshot budget =>
    refine ⟨ho, ?_, fun job' st hst => ⟨st, ?_, .inl rfl⟩⟩
    · exact (Table.keys_insert _ _ _).trans (if_neg (hnew job rfl))
    · have hne : job' ≠ job := fun hj => hnew job rfl (mem_list.2 ⟨st, hj ▸ hst⟩)
      exact (Table.get?_insert_of_ne _ _ hne).trans hst
  | finish job conditions =>
    rcases finish_cases s job conditions with heq | ⟨t, ht, rfl, result, -, heq⟩
    · exact of_jobs ho (congrArg jobs heq) rfl
    · have hsolving := h.solving t ht
      refine ⟨ho, ?_, fun job' st hst => ?_⟩ <;> rw [Service.step, heq]
      · exact (Table.keys_insert_of_mem _ (mem_list.2 ⟨_, hsolving⟩)).trans
          (List.append_nil _).symm
      · by_cases hj : job' = t.job
        · subst hj
          rw [hsolving] at hst
          cases hst
          exact ⟨_, Table.get?_insert_self _ _ _, .inr ⟨rfl, Status.isFinished_ofOutcome result⟩⟩
        · exact ⟨st, (Table.get?_insert_of_ne _ _ hj).trans hst, .inl rfl⟩
  | publish job => exact of_jobs ho (jobs_publish publisher s job) rfl
  | die job conditions => exact of_jobs ho (jobs_die s job conditions) rfl

end Follows

/-! ### Runs -/

namespace Run

/-- What each step keeps, a run keeps, if no id comes in twice. -/
theorem follows (h : Run s es s') (hs : s.Orderly) (hids : (s.list ++ submitted es).Nodup) :
    s.Follows es s' := by
  induction h with
  | nil s => exact .refl hs
  | @cons s s' e es publisher _ ih =>
    rw [submitted_cons, ← List.append_assoc] at hids
    have hnew : ∀ job ∈ e.newId?, ¬ job ∈ s.list := fun job hj hm =>
      List.disjoint_of_nodup_append hids.of_append_left hm (Option.mem_toList.2 hj)
    have hstep := Follows.step hs hnew publisher
    have hlist : (s.step publisher e).list = s.list ++ e.newId?.toList := by
      rw [hstep.list, submitted_cons]
      exact congrArg _ (List.append_nil _)
    exact hstep.trans (ih hstep.orderly (hlist ▸ hids))

theorem foldl (publisher : Publisher) (s : Service) (es : List Step) :
    Run s es (es.foldl (Service.step publisher) s) := by
  induction es generalizing s with
  | nil => exact .nil s
  | cons e es ih => exact .cons publisher (ih _)

/-- What the publishers take or refuse does not matter. -/
theorem unique (h : Run s es s') (h' : Run s es s'') : s' = s'' := by
  induction h with
  | nil s => cases h'; rfl
  | @cons s s' e es publisher _ ih =>
    cases h' with
    | cons publisher' h' =>
      have hstep : s.step publisher' e = s.step publisher e := by
        cases e with
        | publish job => exact publish_eq publisher' publisher s job
        | submit | finish | die => rfl
      exact ih (hstep ▸ h')

end Run

/-- What is promised of a service in state `s`, reached by the steps `before`, and of every state
`s'` that it comes to by the steps `after`. -/
structure Kept (before : List Step) (s : Service) (after : List Step) (s' : Service) : Prop where
  /-- The list shows the ids that came in, and each once. -/
  listed : s.list.Nodup ∧ ∀ job, job ∈ s.list ↔ job ∈ submitted before
  /-- A job comes in as one to be solved. -/
  solving : ∀ publisher job snapshot budget,
    (s.step publisher (.submit job snapshot budget)).status? job = some .solving
  /-- A running task that has an outcome can end with it, and the event of its job then goes out. -/
  ends : ∀ publisher, ∀ t ∈ s.running, ∀ conditions result, s.outcome t conditions = .ok result →
    (s.step publisher (.finish t.job conditions)).status? t.job = some (.ofOutcome result) ∧
      .ofOutcome t.job result ∈ (s.step publisher (.finish t.job conditions)).unsent
  /-- An event on its way out can be sent. -/
  sends : ∀ publisher, ∀ e ∈ s.unsent, e ∈ (s.step publisher (.publish e.job)).sent
  /-- No job is lost, and its status changes at most once, when it is solved. -/
  advances : ∀ job st, s.status? job = some st → ∃ st', s'.status? job = some st' ∧
    (st' = st ∨ st = .solving ∧ st'.isFinished = true)
  /-- A job has at most one event. -/
  once : (s.events.map Event.job).Nodup
  /-- An event tells the stored status of its job, and that is final. -/
  told : ∀ e ∈ s.events, ∃ st, s.status? e.job = some st ∧ st.isFinished = true ∧ e.Tells st
  /-- Whether a publisher takes an event or refuses it, no status changes. -/
  unmoved : ∀ publisher job, (s.step publisher (.publish job)).jobs = s.jobs
  /-- Whatever publishers take or refuse on the way, the jobs are the same in the end. -/
  independent : ∀ s'', Run s after s'' → s''.jobs = s'.jobs

/-- In whatever order the steps of whatever jobs come, all that is promised is kept, if no id comes
in twice. -/
theorem lifecycle (settings : SolverSettings) (before after : List Step) (s s' : Service)
    (hids : (submitted (before ++ after)).Nodup) (h : Run { settings := settings } before s)
    (h' : Run s after s') : Kept before s after s' := by
  rw [submitted, List.filterMap_append] at hids
  have hbefore := h.follows (.start settings) hids.of_append_left
  have hlist : s.list = submitted before := hbefore.list
  have hafter := h'.follows hbefore.orderly (hlist ▸ hids)
  exact {
    listed := ⟨hlist ▸ hids.of_append_left, fun job => by rw [hlist]⟩
    solving := fun _ job _ _ => Table.get?_insert_self s.jobs job _
    ends := fun _ _ ht _ _ hres => hbefore.orderly.finish_of_outcome ht hres
    sends := fun publisher _ he => hbefore.orderly.mem_sent_publish he publisher
    advances := hafter.status
    once := hbefore.orderly.once
    told := fun e he => by
      obtain ⟨st, hst, htells⟩ := hbefore.orderly.told e he
      exact ⟨st, hst, htells.isFinished, htells⟩
    unmoved := fun publisher job => jobs_publish publisher s job
    independent := fun s'' h'' => by rw [h'.unique h''] }

/-- A publisher that refuses everything. -/
def refusal : Publisher := fun _ => .error ⟨"bus unreachable"⟩

/-- One subject for one teacher, one room and one slot. -/
def lesson : Snapshot where
  teachers := [⟨7, "Ada", [], 10, []⟩]
  subjects := [⟨1, "S1", 2, []⟩]
  rooms := [⟨100, 40, "lecture"⟩]
  timeSlots := [⟨1, 0, 1, 2⟩]

/-- A job is solved while another, whose budget does not fit the clock, dies. -/
def mixedSteps : List Step :=
  [.submit ⟨1⟩ lesson none, .submit ⟨2⟩ lesson (some 9223372036854775806), .finish ⟨1⟩ {},
    .die ⟨2⟩ { clock := .standing 2 }, .publish ⟨1⟩]

/-- What the steps above lead to. -/
def mixed : Service := mixedSteps.foldl (Service.step refusal) {}

/-- A third job comes in and runs out of time. -/
def lateSteps : List Step := [.submit ⟨3⟩ lesson (some 0), .finish ⟨3⟩ {}, .publish ⟨3⟩]

theorem lifecycle_mixed : (submitted (mixedSteps ++ lateSteps)).Nodup ∧
    Run { settings := {} } mixedSteps mixed ∧
    Run mixed lateSteps (lateSteps.foldl (Service.step refusal) mixed) ∧
    mixed.events = [.completed ⟨1⟩ 100 false 0] ∧ mixed.status? ⟨2⟩ = some .solving ∧
    Kept mixedSteps mixed lateSteps (lateSteps.foldl (Service.step refusal) mixed) :=
  have hids : (submitted (mixedSteps ++ lateSteps)).Nodup := by decide
  have h : Run { settings := {} } mixedSteps mixed := .foldl refusal {} mixedSteps
  have h' := Run.foldl refusal mixed lateSteps
  ⟨hids, h, h', by cbv, by cbv, lifecycle {} mixedSteps lateSteps _ _ hids h h'⟩

end Service

end Timetabling
