import Timetabling.Api.Server
import Timetabling.Proofs.JobId
import Timetabling.Proofs.Lifecycle

/-!
# Requests and the job table

Only one kind of request brings a job in (`Request.Submits`). Any other is refused or only reads,
and leaves the service as it is, whatever is wrong with it (`handle_of_not_submits`). So while
requests come one after another, and the jobs go on between them (`Session`), the table lists the
ids that the answers have told, no more and no fewer (`Session.ledger`).
-/

namespace Timetabling

namespace Api

open Job

variable {α : Type} {s : Service} {r : Request} {g : GenerateRequest} {fresh job : JobId}
  {answer : Response} {segment : List Char} {read : Json.Reader α} {settings : SolverSettings}

/-! ### One request -/

/-- The request asks for a timetable, by `g`, and nothing is wrong with it. -/
structure Request.Submits (r : Request) (g : GenerateRequest) : Prop where
  target : Route.ofTarget? r.target = some .schedules
  method : r.method = .post
  content : saysJson r.contentType = true
  size : r.body.bytes.size ≤ bodyLimit
  body : GenerateRequest.read.front r.body.bytes = .ok g

/-- The codes of all answers to requests that bring no job in. -/
def otherCodes : List Nat := [200, 400, 404, 405, 413, 415, 422]

theorem readBody_eq_ok {a : α} : readBody read r = .ok a ↔
    saysJson r.contentType = true ∧ r.body.bytes.size ≤ bodyLimit ∧
      read.front r.body.bytes = .ok a := by
  unfold readBody
  cases saysJson r.contentType with
  | false => simp
  | true =>
    rcases Nat.lt_or_ge bodyLimit r.body.bytes.size with hlarge | hsmall
    · simp [hlarge]
    · cases read.front r.body.bytes with
      | ok b => simp [hsmall, Nat.not_lt.2 hsmall]
      | error e => cases e <;> simp [Nat.not_lt.2 hsmall]

theorem code_of_readBody_eq_error (h : readBody read r = .error answer) :
    answer.code ∈ otherCodes := by
  unfold readBody at h
  split at h
  · cases h; decide
  · split at h
    · cases h; decide
    · split at h <;> cases h <;> decide

theorem code_suggest (r : Request) : (suggest r).code ∈ otherCodes := by
  unfold suggest
  split
  · next answer h => exact code_of_readBody_eq_error h
  · split <;> simp [otherCodes]

theorem code_status (s : Service) (segment : List Char) : (status s segment).code ∈ otherCodes := by
  unfold status
  split
  · decide
  · split <;> simp [otherCodes]

theorem status_of_some (h : jobOfSegment? segment = some job) {st : Status}
    (hs : s.status? job = some st) : status s segment = ⟨200, .status st⟩ := by
  simp only [status, h, hs]

theorem status_of_none (h : jobOfSegment? segment = some job) (hs : s.status? job = none) :
    status s segment = ⟨404, .text ("Unknown job: " ++ job.text)⟩ := by
  simp only [status, h, hs]

theorem code_status_of_job (h : jobOfSegment? segment = some job) :
    (status s segment).code = if job ∈ s.list then 200 else 404 := by
  cases hs : s.status? job with
  | none =>
    have hm : ¬ job ∈ s.list := fun hm => by
      obtain ⟨st, hst⟩ := Service.mem_list.1 hm
      rw [hs] at hst; cases hst
    rw [status_of_none h hs, if_neg hm]
  | some st => rw [status_of_some h hs, if_pos (Service.mem_list.2 ⟨st, hs⟩)]

theorem Request.submits_iff : r.Submits g ↔ Route.ofTarget? r.target = some .schedules ∧
    r.method = .post ∧ readBody GenerateRequest.read r = .ok g := by
  rw [readBody_eq_ok]
  exact ⟨fun h => ⟨h.target, h.method, h.content, h.size, h.body⟩,
    fun ⟨ht, hm, hc, hs, hb⟩ => ⟨ht, hm, hc, hs, hb⟩⟩

theorem handle_of_submits (h : r.Submits g) (s : Service) (fresh : JobId) : handle s fresh r =
    ({ code := 202, body := .job fresh }, s.submit fresh g.snapshot g.deadlineSecs) := by
  obtain ⟨ht, hm, hb⟩ := Request.submits_iff.1 h
  simp [handle, ht, hm, Route.allows, generate, hb]

theorem handle_of_readBody_eq_error (ht : Route.ofTarget? r.target = some .schedules)
    (hm : r.method = .post) (h : readBody GenerateRequest.read r = .error answer) (s : Service)
    (fresh : JobId) : handle s fresh r = (answer, s) := by
  simp [handle, ht, hm, Route.allows, generate, h]

theorem handle_of_not_submits (h : ∀ g, ¬ r.Submits g) (s : Service) (fresh : JobId) :
    (handle s fresh r).1.code ∈ otherCodes ∧ (handle s fresh r).2 = s := by
  cases ht : Route.ofTarget? r.target with
  | none => simp [handle, ht, otherCodes]
  | some route =>
    cases hallows : route.allows r.method with
    | false => simp [handle, ht, hallows, otherCodes]
    | true =>
      cases route with
      | schedules =>
        cases hm : r.method with
        | get | head => simp [handle, ht, hm, Route.allows, otherCodes]
        | post =>
          cases hb : readBody GenerateRequest.read r with
          | error answer =>
            rw [handle_of_readBody_eq_error ht hm hb]
            exact ⟨code_of_readBody_eq_error hb, rfl⟩
          | ok g => exact absurd (Request.submits_iff.2 ⟨ht, hm, hb⟩) (h g)
        | other => simp [Route.allows, hm] at hallows
      | schedule segment =>
        have hcode := code_status s segment
        cases hm : r.method with
        | get | head => simpa [handle, ht, hm, Route.allows, Response.headOnly] using hcode
        | post | other => simp [Route.allows, hm] at hallows
      | suggestions => simpa [handle, ht, hallows] using code_suggest r

theorem code_handle_eq_202 : (handle s fresh r).1.code = 202 ↔ ∃ g, r.Submits g := by
  refine ⟨fun hcode => ?_, fun ⟨g, hg⟩ => by rw [handle_of_submits hg]⟩
  by_contra hnone
  have hother := (handle_of_not_submits (fun g hg => hnone ⟨g, hg⟩) s fresh).1
  rw [hcode] at hother
  revert hother; decide

theorem handle_list (ht : Route.ofTarget? r.target = some .schedules) (hm : r.method = .get) :
    handle s fresh r = ({ code := 200, body := .jobs s.list }, s) := by
  simp [handle, ht, hm, Route.allows]

theorem handle_status (ht : Route.ofTarget? r.target = some (.schedule segment))
    (hm : r.method = .get) : handle s fresh r = (status s segment, s) := by
  simp [handle, ht, hm, Route.allows]

theorem code_handle_status (ht : Route.ofTarget? r.target = some (.schedule segment))
    (hm : r.method = .get ∨ r.method = .head) :
    (handle s fresh r).1.code = (status s segment).code := by
  rcases hm with hm | hm <;> simp [handle, ht, hm, Route.allows, Response.headOnly]

/-! ### Sessions -/

/-- A request and what was answered. -/
structure Exchange where
  request : Request
  /-- The id that a new job would get. -/
  fresh : JobId
  answer : Response

/-- The job that an answer tells to have been accepted. -/
def Response.accepted? (answer : Response) : Option JobId :=
  match answer.code, answer.body with
  | 202, .job job => some job
  | _, _ => none

/-- The ids that have been told to those who asked, in order. -/
def returned (xs : List Exchange) : List JobId := xs.filterMap fun x => x.answer.accepted?

/-- The ids that have been drawn: a request that is not accepted draws none. -/
def drawn (xs : List Exchange) : List JobId :=
  (xs.filter fun x => x.answer.code = 202).map Exchange.fresh

/-- Requests to a new service come one after another and are answered; between them, jobs go on. -/
inductive Session (settings : SolverSettings) : List Exchange → Service → Prop
  | start : Session settings [] { settings := settings }
  | request {xs : List Exchange} {s : Service} (fresh : JobId) (r : Request)
      (h : Session settings xs s) :
      Session settings (xs ++ [⟨r, fresh, (handle s fresh r).1⟩]) (handle s fresh r).2
  | work {xs : List Exchange} {s : Service} (publisher : Publisher) {e : Step}
      (hnew : e.newId? = none) (h : Session settings xs s) :
      Session settings xs (s.step publisher e)

variable {xs : List Exchange}

/-- How the service stands beside what it has answered. -/
structure Ledger (xs : List Exchange) (s : Service) : Prop where
  orderly : s.Orderly
  list : s.list = drawn xs
  returned : returned xs = drawn xs

theorem returned_append (xs ys : List Exchange) :
    returned (xs ++ ys) = returned xs ++ returned ys :=
  List.filterMap_append

theorem drawn_append (xs ys : List Exchange) : drawn (xs ++ ys) = drawn xs ++ drawn ys := by
  rw [drawn, List.filter_append, List.map_append]; rfl

theorem drawn_append_sublist (xs ys : List Exchange) : (drawn xs).Sublist (drawn (xs ++ ys)) :=
  ((List.sublist_append_left xs ys).filter _).map _

theorem drawn_append_of_ne (x : Exchange) (h : x.answer.code ≠ 202) :
    drawn (xs ++ [x]) = drawn xs := by
  simp [drawn, h]

theorem returned_append_of_ne (x : Exchange) (h : x.answer.code ≠ 202) :
    returned (xs ++ [x]) = returned xs := by
  have hnone : x.answer.accepted? = none := by
    unfold Response.accepted?
    split
    · next hcode _ => exact absurd hcode h
    · rfl
  simp [returned, hnone]

namespace Ledger

theorem start (settings : SolverSettings) : Ledger [] { settings := settings } :=
  ⟨.start settings, rfl, rfl⟩

theorem work (h : Ledger xs s) {e : Step} (hnew : e.newId? = none) (publisher : Publisher) :
    Ledger xs (s.step publisher e) := by
  have hnone : ∀ job ∈ e.newId?, ¬ job ∈ s.list := fun job hj => by
    rw [hnew] at hj
    cases hj
  have hstep := Service.Follows.step h.orderly hnone publisher
  have hlist : (s.step publisher e).list = s.list := by
    rw [hstep.list, submitted_cons, hnew]
    exact List.append_nil _
  exact ⟨hstep.orderly, hlist.trans h.list, h.returned⟩

theorem accept (h : Ledger xs s) (hg : r.Submits g) (hnew : ¬ fresh ∈ drawn xs) :
    Ledger (xs ++ [⟨r, fresh, (handle s fresh r).1⟩]) (handle s fresh r).2 := by
  have hlist : ¬ fresh ∈ s.list := h.list ▸ hnew
  rw [handle_of_submits hg]
  refine ⟨h.orderly.submit hlist g.snapshot g.deadlineSecs, ?_, ?_⟩
  · calc (s.submit fresh g.snapshot g.deadlineSecs).list
        = s.list ++ [fresh] := (Table.keys_insert _ _ _).trans (if_neg hlist)
      _ = drawn xs ++ drawn [⟨r, fresh, ⟨202, .job fresh⟩⟩] := by rw [h.list]; rfl
      _ = drawn (xs ++ [⟨r, fresh, ⟨202, .job fresh⟩⟩]) := (drawn_append _ _).symm
  · rw [returned_append, drawn_append, h.returned]
    rfl

theorem refuse (h : Ledger xs s) (hg : ∀ g, ¬ r.Submits g) (fresh : JobId) :
    Ledger (xs ++ [⟨r, fresh, (handle s fresh r).1⟩]) (handle s fresh r).2 := by
  have hcode : (handle s fresh r).1.code ≠ 202 := fun hcode =>
    let ⟨g, h⟩ := code_handle_eq_202.1 hcode
    hg g h
  rw [(handle_of_not_submits hg s fresh).2]
  refine ⟨h.orderly, ?_, ?_⟩
  · rw [drawn_append_of_ne _ hcode, h.list]
  · rw [drawn_append_of_ne _ hcode, returned_append_of_ne _ hcode, h.returned]

end Ledger

/-- A session keeps its ledger, if no id is drawn twice. -/
theorem Session.ledger (h : Session settings xs s) (hids : (drawn xs).Nodup) : Ledger xs s := by
  induction h with
  | start => exact .start settings
  | @request xs s fresh r _ ih =>
    have hledger := ih (hids.sublist (drawn_append_sublist xs _))
    by_cases hsubmits : ∃ g, r.Submits g
    · obtain ⟨g, hg⟩ := hsubmits
      refine hledger.accept hg fun hm => ?_
      have hdrawn : drawn (xs ++ [⟨r, fresh, (handle s fresh r).1⟩]) = drawn xs ++ [fresh] := by
        rw [handle_of_submits hg]
        simp [drawn]
      rw [hdrawn] at hids
      exact List.disjoint_of_nodup_append hids hm (List.mem_singleton.2 rfl)
    · exact hledger.refuse (fun g hg => hsubmits ⟨g, hg⟩) fresh
  | work publisher hnew _ ih => exact (ih hids).work hnew publisher

/-- What is promised after the exchanges `xs`, in the state `s`, for whatever is asked next. -/
structure Accounted (xs : List Exchange) (s : Service) : Prop where
  /-- Whoever asks for the list gets the ids that have been returned, each once. -/
  listed : ∀ fresh r, Route.ofTarget? r.target = some .schedules → r.method = .get →
    ∃ ids, (handle s fresh r).1 = { code := 200, body := .jobs ids } ∧ ids.Nodup ∧
      ∀ job, job ∈ ids ↔ job ∈ returned xs
  /-- A job that is named by its id is known if and only if its id has been returned. -/
  known : ∀ fresh r segment job, Route.ofTarget? r.target = some (.schedule segment) →
    r.method = .get ∨ r.method = .head → jobOfSegment? segment = some job →
    (handle s fresh r).1.code = if job ∈ returned xs then 200 else 404
  /-- It is named, for one, by its own text. -/
  named : ∀ fresh r job, r.target = job.path → r.method = .get ∨ r.method = .head →
    (handle s fresh r).1.code = if job ∈ returned xs then 200 else 404
  /-- What is accepted is a request for a timetable with nothing wrong in it, and nothing else. -/
  accepts : ∀ fresh r, (handle s fresh r).1.code = 202 ↔ ∃ g, r.Submits g
  /-- The answer then tells the id of the new job. -/
  tells : ∀ fresh r, (handle s fresh r).1.code = 202 → (handle s fresh r).1.body = .job fresh
  /-- A body that is no JSON, not of the right shape or not said to be JSON is not accepted. -/
  rejects : ∀ fresh r, saysJson r.contentType = false ∨
    (∃ e, GenerateRequest.read.front r.body.bytes = .error e) → (handle s fresh r).1.code ≠ 202
  /-- To ask for suggestions is not to be accepted either. -/
  suggests : ∀ fresh r, Route.ofTarget? r.target = some .suggestions →
    (handle s fresh r).1.code ≠ 202
  /-- Without being accepted, a request changes nothing: no job comes, goes or starts. -/
  unmoved : ∀ fresh r, (handle s fresh r).1.code ≠ 202 →
    (handle s fresh r).1.code ∈ otherCodes ∧ (handle s fresh r).2 = s

/-- Whatever is asked in whatever order, and however the jobs go on meanwhile, the jobs there are
are those whose ids have been returned, if no id is drawn twice. -/
theorem session_accounted (settings : SolverSettings) (xs : List Exchange) (s : Service)
    (h : Session settings xs s) (hids : (drawn xs).Nodup) : Accounted xs s := by
  have hledger := h.ledger hids
  have hlist : s.list = returned xs := hledger.list.trans hledger.returned.symm
  have hknown : ∀ fresh r segment job, Route.ofTarget? r.target = some (.schedule segment) →
      r.method = .get ∨ r.method = .head → jobOfSegment? segment = some job →
      (handle s fresh r).1.code = if job ∈ returned xs then 200 else 404 :=
    fun fresh r segment job ht hm hjob => by
      rw [code_handle_status ht hm, code_status_of_job hjob, hlist]
  refine ⟨fun fresh r ht hm => ?_, hknown, fun fresh r job ht hm => ?_,
    fun fresh r => code_handle_eq_202, fun fresh r hcode => ?_, fun fresh r hbad hcode => ?_,
    fun fresh r ht hcode => ?_, fun fresh r hcode => ?_⟩
  · refine ⟨s.list, by rw [handle_list ht hm], hledger.list ▸ hids, fun job => by rw [hlist]⟩
  · exact hknown fresh r job.text.toList job (ht ▸ job.ofTarget?_path) hm job.jobOfSegment?_text
  · obtain ⟨g, hg⟩ := code_handle_eq_202.1 hcode
    rw [handle_of_submits hg]
  · obtain ⟨g, hg⟩ := code_handle_eq_202.1 hcode
    rcases hbad with hcontent | ⟨e, hbody⟩
    · rw [hg.content] at hcontent; cases hcontent
    · rw [hg.body] at hbody; cases hbody
  · obtain ⟨g, hg⟩ := code_handle_eq_202.1 hcode
    rw [hg.target] at ht; cases ht
  · exact handle_of_not_submits (fun g hg => hcode (code_handle_eq_202.2 ⟨g, hg⟩)) s fresh

/-- Asks for a timetable of one subject that nobody teaches. -/
def asking : Request where
  method := .post
  target := "/v1/schedules"
  contentType := some "application/json"
  body := ("\x7b\"snapshot\":\x7b\"teachers\":[],\"subjects\":[[1,\"S1\",2]]," ++
    "\"rooms\":[],\"timeSlots\":[]\x7d\x7d" : String)

/-- The name of the subject is no UTF-8. -/
def breaking : Request :=
  { asking with body := ⟨"\x7b\"snapshot\":\x7b\"subjects\":[[1,\"".toUTF8 ++ ⟨#[0xFF, 0x22]⟩⟩ }

def listing : Request := ⟨.get, "/v1/schedules", none, ""⟩

/-- Asks how a job stands. -/
def inquiring (job : JobId) : Request := ⟨.get, job.path, none, ""⟩

/-- A job is accepted, and a body with a broken name is not. Then the list is asked for, and how the
job stands, and how another job stands that there never was. -/
def talk : List Exchange :=
  [⟨asking, ⟨1⟩, 202, .job ⟨1⟩⟩, ⟨breaking, ⟨2⟩, 400, .empty⟩, ⟨listing, ⟨3⟩, 200, .jobs [⟨1⟩]⟩,
    ⟨inquiring ⟨1⟩, ⟨4⟩, 200, .status (.failed (Infeasibility.domainWipeout 1).report (-1))⟩,
    ⟨inquiring ⟨2⟩, ⟨5⟩, 404, .text ("Unknown job: " ++ JobId.text ⟨2⟩)⟩]

/-- The job has been solved in between. -/
def talkEnd : Service :=
  (Service.submit {} ⟨1⟩ ⟨[], [⟨1, "S1", 2, []⟩], [], []⟩ none).step Service.refusal
    (.finish ⟨1⟩ {})

theorem session_accounted_talk : Session {} talk talkEnd ∧ (drawn talk).Nodup ∧
    returned talk = [⟨1⟩] ∧ Accounted talk talkEnd := by
  have hasking : asking.Submits ⟨⟨[], [⟨1, "S1", 2, []⟩], [], []⟩, none⟩ :=
    ⟨by decide, rfl, by decide, by decide, by cbv⟩
  have hbroken : readBody GenerateRequest.read breaking = .error { code := 400 } := by rfl
  have hrefused : handle talkEnd ⟨2⟩ breaking = (⟨400, .empty⟩, talkEnd) :=
    handle_of_readBody_eq_error (by decide) rfl hbroken talkEnd ⟨2⟩
  have hsolved : talkEnd.status? ⟨1⟩ =
      some (.failed (Infeasibility.domainWipeout 1).report (-1)) := rfl
  have hfailed : handle talkEnd ⟨4⟩ (inquiring ⟨1⟩) =
      (⟨200, .status (.failed (Infeasibility.domainWipeout 1).report (-1))⟩, talkEnd) := by
    have ht : Route.ofTarget? (inquiring ⟨1⟩).target = some (.schedule (JobId.text ⟨1⟩).toList) :=
      JobId.ofTarget?_path ⟨1⟩
    rw [handle_status ht rfl, status_of_some (JobId.jobOfSegment?_text ⟨1⟩) hsolved]
  have hunknown : handle talkEnd ⟨5⟩ (inquiring ⟨2⟩) =
      (⟨404, .text ("Unknown job: " ++ JobId.text ⟨2⟩)⟩, talkEnd) := by
    have ht : Route.ofTarget? (inquiring ⟨2⟩).target = some (.schedule (JobId.text ⟨2⟩).toList) :=
      JobId.ofTarget?_path ⟨2⟩
    rw [handle_status ht rfl, status_of_none (JobId.jobOfSegment?_text ⟨2⟩) rfl]
  have h : Session {} talk talkEnd := by
    have hfirst := Session.request ⟨1⟩ asking (.start : Session {} [] {})
    rw [handle_of_submits hasking] at hfirst
    have hwork := Session.work Service.refusal (e := .finish ⟨1⟩ {}) rfl hfirst
    change Session {} _ talkEnd at hwork
    have hsecond := Session.request ⟨2⟩ breaking hwork
    rw [hrefused] at hsecond
    have hthird := Session.request ⟨3⟩ listing hsecond
    have hlist : talkEnd.list = [⟨1⟩] := (hwork.ledger (by decide)).list
    rw [handle_list (by decide) rfl, hlist] at hthird
    have hfourth := Session.request ⟨4⟩ (inquiring ⟨1⟩) hthird
    rw [hfailed] at hfourth
    have hfifth := Session.request ⟨5⟩ (inquiring ⟨2⟩) hfourth
    rw [hunknown] at hfifth
    exact hfifth
  have hids : (drawn talk).Nodup := by decide
  exact ⟨h, hids, by decide, session_accounted {} talk talkEnd h hids⟩

end Api

end Timetabling
