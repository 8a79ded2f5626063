import ModelForge.KnowledgeIngestion

set_option autoImplicit false

/-!
# Knowledge of other customers

Whatever is ingested, deleted and retrieved side by side, with crashes at any point,
a customer gets passages of own documents only, and only of documents that have been
ingested to the end.
-/
namespace ModelForge.KnowledgeIsolation
open EventStream (JsString js)
open KnowledgeChanges
open KnowledgeChunks (KnowledgeChunk)
open KnowledgeIngestion
open KnowledgeStore
open Participants (get_of_modify get_of_concat)
open RelatedRows
open RunInvariant (run run_invariant)

variable {runtime : Runtime} {db db' : Db} {s t : System} {d v : JsString} {base : KnowledgeBase}
  {document : KnowledgeDocument} {submission : Submission} {task task' : Task} {i : ℕ}

/-! ## What a customer gets -/

variable {request : RetrievalRequest} {result : RetrievalResult} {hit : RetrievalHit} {chunks : List KnowledgeChunk}
  {e : Event}

/-- A requested base of the customer. -/
structure OwnBase (db : Db) (request : RetrievalRequest) (base : KnowledgeBase) : Prop where
  mem : base ∈ db.knowledgeBases
  customer : base.customerId = request.customerId
  requested : base.id ∈ requestedIds request

/-- A document of the base that has been ingested to the end, from the text of someone who
may write there. -/
structure Complete (runtime : Runtime) (s : System) (base : KnowledgeBase) (document : KnowledgeDocument)
    (submission : Submission) (chunks : List KnowledgeChunk) : Prop where
  mem : document ∈ s.db.documents
  inBase : document.knowledgeBaseId = base.id
  succeeded : document.status = .SUCCEEDED
  origin : (document.id, submission) ∈ s.origins
  title : submission.title = document.title
  allowed : ∀ user ∈ submission.user, Owns base.customerId user
  prepared : prepared runtime submission.content = some (.ok chunks)
  full : Full s.db document.id chunks

/-- The hit is a chunk of the document. -/
structure IsPassage (base : KnowledgeBase) (document : KnowledgeDocument) (chunks : List KnowledgeChunk)
    (hit : RetrievalHit) : Prop where
  inBase : hit.knowledgeBaseId = base.id
  baseName : hit.knowledgeBaseName = base.name
  inDocument : hit.documentId = document.id
  titled : hit.documentTitle = document.title
  chunk : ∃ chunk ∈ chunks, chunk.ordinal = hit.ordinal ∧ chunk.content = hit.content

/-- The hit tells of the document, with the beginning of its first chunk. -/
def IsEntry (db : Db) (base : KnowledgeBase) (document : KnowledgeDocument) (chunks : List KnowledgeChunk)
    (hit : RetrievalHit) : Prop :=
  (∃ index, hit = catalogEntry db base index document) ∧ (opening db document).map toChunk = chunks.head?

/-- Where a hit comes from. -/
def FromOwn (runtime : Runtime) (s : System) (request : RetrievalRequest) (hit : RetrievalHit) : Prop :=
  ∃ base, OwnBase s.db request base ∧ (hit = emptyEntry base ∨ ∃ document submission chunks,
    Complete runtime s base document submission chunks ∧
      (IsPassage base document chunks hit ∨ IsEntry s.db base document chunks hit))

theorem exists_complete (h : Inv runtime s) (hbase : base ∈ s.db.knowledgeBases) (hdocument : document ∈ s.db.documents)
    (heq : document.knowledgeBaseId = base.id) (hsucceeded : document.status = .SUCCEEDED) :
    ∃ submission chunks, Complete runtime s base document submission chunks := by
  obtain ⟨submission, horigin, hbaseId, htitle, hcomplete⟩ := h.made document hdocument
  obtain ⟨chunks, hprepared, hfull⟩ := hcomplete hsucceeded
  refine ⟨submission, chunks, hdocument, heq, hsucceeded, horigin, htitle, fun user huser => ?_, hprepared, hfull⟩
  exact (h.allowed _ horigin user huser).2 base hbase (heq.symm.trans hbaseId.symm)

/-- A row that the query finds is a chunk of a document in a requested base. -/
theorem passageOf_eq_some {requested : List JsString} {row : ChunkRow} {passage : Passage}
    (h : passageOf db requested row = some passage) : ∃ version ∈ db.versions, ∃ document ∈ db.documents,
      ∃ base ∈ db.knowledgeBases, version.id = row.versionId ∧ document.id = version.documentId ∧
        base.id = document.knowledgeBaseId ∧ document.status = .SUCCEEDED ∧ document.knowledgeBaseId ∈ requested ∧
        passage = ⟨row.id, base.id, base.name, document.id, document.title, row.ordinal, row.content, row.embedding⟩ := by
  obtain ⟨version, hversion, h⟩ := Option.bind_eq_some_iff.mp h
  obtain ⟨document, hdocument, h⟩ := Option.bind_eq_some_iff.mp h
  obtain ⟨base, hbase, h⟩ := Option.bind_eq_some_iff.mp h
  obtain ⟨hversionMem, hversionId⟩ := find_eq_some hversion
  obtain ⟨hdocumentMem, hdocumentId⟩ := find_eq_some hdocument
  obtain ⟨hbaseMem, hbaseId⟩ := find_eq_some hbase
  split at h
  next hfound =>
    exact ⟨version, hversionMem, document, hdocumentMem, base, hbaseMem, hversionId, hdocumentId, hbaseId, hfound.1,
      List.contains_iff_mem.mp hfound.2, (Option.some.inj h).symm⟩
  · cases h

/-- The hits of an answer are among the passages. -/
theorem exists_passage {rows : List Passage} (h : hit ∈ (passageResult runtime request rows).hits) :
    ∃ passage ∈ rows, hit = scored runtime request.query passage := by
  obtain ⟨rest, hbest, -, -⟩ := hits_are_best runtime request rows
  obtain ⟨-, passage, hpassage, heq⟩ := hbest.found hit (List.mem_append_left _ h)
  exact ⟨passage, List.mem_of_mem_take hpassage, heq⟩

theorem passage_own (h : Inv runtime s) (hrequest : TaskOk runtime s (.retrieve request)) {rows : List Passage}
    (hrows : rows.Perm (passages s.db (requestedIds request)))
    (hhit : hit ∈ (passageResult runtime request rows).hits) : FromOwn runtime s request hit := by
  obtain ⟨passage, hpassage, rfl⟩ := exists_passage hhit
  obtain ⟨row, hrow, hfound⟩ := List.mem_filterMap.mp (hrows.mem_iff.mp hpassage)
  obtain ⟨version, hversion, document, hdocument, base, hbase, hv, hd, hb, hsucceeded, hrequested, rfl⟩ :=
    passageOf_eq_some hfound
  obtain ⟨submission, chunks, hcomplete⟩ := exists_complete h hbase hdocument hb.symm hsucceeded
  have hchunk := hcomplete.full.mem hversion hd.symm hrow hv.symm
  refine ⟨base, ⟨hbase, (hrequest _ hrequested).2 base hbase hb, hb ▸ hrequested⟩, .inr ⟨document, submission, chunks,
    hcomplete, .inl ⟨rfl, rfl, rfl, rfl, _, hchunk, rfl, rfl⟩⟩⟩

theorem ordinals_prepared {content : JsString} (h : prepared runtime content = some (.ok chunks)) :
    chunks.Pairwise fun a b => a.ordinal ≤ b.ordinal := by
  obtain ⟨outcome, -, houtcome⟩ := Option.map_eq_some_iff.mp h
  cases outcome with
  | error e => cases houtcome
  | ok parts =>
    obtain rfl := Except.ok.inj houtcome
    rw [List.pairwise_iff_getElem]
    intro i j hi hj hlt
    rw [List.getElem_mapIdx, List.getElem_mapIdx]
    exact hlt.le

/-- The first chunk of the document is the one that the catalog shows. -/
theorem opening_full (h : Full db document.id chunks) (hsorted : chunks.Pairwise fun a b => a.ordinal ≤ b.ordinal) :
    (opening db document).map toChunk = chunks.head? := by
  obtain ⟨v, hversions, rfl⟩ := h
  obtain ⟨version, hversion, rfl⟩ := List.map_eq_singleton_iff.mp hversions
  rw [versionsOf] at hversion
  have hrows : ((chunksOf db version.id).insertionSort fun a b => a.ordinal ≤ b.ordinal) = chunksOf db version.id :=
    (List.pairwise_map.mp hsorted).insertionSort_eq
  rw [opening, hversion]
  rw [chunksOf] at hrows ⊢
  simp [hrows]

theorem catalog_own (h : Inv runtime s) (hhit : hit ∈ (catalogResult s.db request).hits) :
    FromOwn runtime s request hit := by
  obtain ⟨base, hbase, hentry⟩ := List.mem_flatMap.mp hhit
  obtain ⟨hmem, hown⟩ := List.mem_filter.mp hbase
  obtain ⟨hcustomer, hrequested⟩ := of_decide_eq_true hown
  refine ⟨base, ⟨hmem, hcustomer, List.contains_iff_mem.mp hrequested⟩, ?_⟩
  rw [catalogOf] at hentry
  split at hentry
  · exact .inl (List.mem_singleton.mp hentry)
  · obtain ⟨index, hindex, rfl⟩ := List.mem_mapIdx.mp hentry
    obtain ⟨hdocument, hfound⟩ := List.mem_filter.mp (List.getElem_mem hindex)
    obtain ⟨hb, hsucceeded⟩ := of_decide_eq_true hfound
    obtain ⟨submission, chunks, hcomplete⟩ := exists_complete h hmem hdocument hb hsucceeded
    exact .inr ⟨_, submission, chunks, hcomplete, .inr ⟨⟨index, rfl⟩,
      opening_full hcomplete.full (ordinals_prepared hcomplete.prepared)⟩⟩

/-- An answer that a step gives to a request. -/
def Answers (runtime : Runtime) (s : System) (e : Event) (request : RetrievalRequest) (result : RetrievalResult) : Prop :=
  ∃ (t : System) (i : ℕ), step runtime s e = some t ∧ t.tasks[i]? = some (.answered request result) ∧
    s.tasks[i]? ≠ some (.answered request result)

/-- What an answer is. -/
inductive Answer (runtime : Runtime) (s : System) (request : RetrievalRequest) : RetrievalResult → Prop where
  | nothing : Answer runtime s request ⟨[], request.topK.getD 4, request.query, [], .passages⟩
  | catalog : Answer runtime s request (catalogResult s.db request)
  | passages (rows : List Passage) (hrequest : .retrieve request ∈ s.tasks)
      (hrows : rows.Perm (passages s.db (requestedIds request))) :
      Answer runtime s request (passageResult runtime request rows)

theorem settle_tasks (hi : s.tasks[i]? = some task) (hsettle : s.settle runtime i task = some t) :
    ∃ task', t.tasks = s.tasks.modify i (fun _ => task') ∧ ∀ request result, task' ≠ .answered request result := by
  cases task with
  | createDocument submission =>
    rw [System.settle] at hsettle
    split at hsettle <;> obtain rfl := Option.some.inj hsettle <;> exact ⟨_, rfl, by simp⟩
  | createVersion d content =>
    rw [System.settle] at hsettle
    split at hsettle <;> obtain rfl := Option.some.inj hsettle
    · refine ⟨_, rfl, ?_⟩
      split <;> simp
    · exact ⟨_, rfl, by simp⟩
    · exact ⟨_, rfl, by simp⟩
  | createChunks d v chunks =>
    rw [System.settle] at hsettle
    split at hsettle <;> obtain rfl := Option.some.inj hsettle <;> exact ⟨_, rfl, by simp⟩
  | succeed d =>
    obtain rfl := Option.some.inj hsettle
    exact ⟨_, rfl, by simp⟩
  | deleteDocument d =>
    obtain rfl := Option.some.inj hsettle
    exact ⟨_, rfl, by simp⟩
  | deleteKnowledgeBase id =>
    obtain rfl := Option.some.inj hsettle
    exact ⟨_, rfl, by simp⟩
  | retrieve request => cases hsettle
  | answered request result => cases hsettle
  | ended => cases hsettle

theorem spawn_answered {other : RetrievalRequest} {answer : RetrievalResult}
    (h : (s.spawn (.answered other answer)).tasks[i]? = some (.answered request result))
    (hnew : s.tasks[i]? ≠ some (.answered request result)) : request = other ∧ result = answer := by
  rcases get_of_concat h with hold | ⟨-, heq⟩
  · exact absurd hold hnew
  · exact ⟨(Task.answered.inj heq).1, (Task.answered.inj heq).2⟩

theorem spawn_other (h : (s.spawn task).tasks[i]? = some (.answered request result))
    (hother : ∀ request result, task ≠ .answered request result) : s.tasks[i]? = some (.answered request result) := by
  rcases get_of_concat h with hold | ⟨-, heq⟩
  · exact hold
  · exact absurd heq.symm (hother request result)

/-- An action of the web application is followed by at most one new task, that answers nothing. -/
theorem step_tasks (hstep : step runtime s e = some t) (hretrieve : ∀ request, e ≠ .retrieveCustomerKnowledge request)
    (hanswer : ∀ i rows, e ≠ .answer i rows) (h : t.tasks[i]? = some (.answered request result)) :
    s.tasks[i]? = some (.answered request result) := by
  cases e with
  | createKnowledgeBaseAction user name =>
    rw [step] at hstep
    split at hstep <;> obtain rfl := Option.some.inj hstep <;> exact h
  | ingestKnowledgeDocumentAction user id title content =>
    rw [step] at hstep
    split at hstep
    · split at hstep <;> obtain rfl := Option.some.inj hstep
      · exact spawn_other h (by simp)
      · exact h
    · obtain rfl := Option.some.inj hstep
      exact h
  | ingestTextDocument id title content =>
    obtain rfl := Option.some.inj hstep
    exact spawn_other h (by simp)
  | deleteKnowledgeDocumentAction user d =>
    rw [step] at hstep
    split at hstep
    · split at hstep
      · split at hstep <;> obtain rfl := Option.some.inj hstep
        · exact spawn_other h (by simp)
        · exact h
      · obtain rfl := Option.some.inj hstep
        exact h
    · obtain rfl := Option.some.inj hstep
      exact h
  | deleteKnowledgeBaseAction user id =>
    rw [step] at hstep
    split at hstep
    · split at hstep <;> obtain rfl := Option.some.inj hstep
      · exact spawn_other h (by simp)
      · exact h
    · obtain rfl := Option.some.inj hstep
      exact h
  | retrieveCustomerKnowledge request => exact absurd rfl (hretrieve request)
  | settle j =>
    obtain ⟨task, hj, hsettle⟩ := Option.bind_eq_some_iff.mp hstep
    obtain ⟨task', htasks, hother⟩ := settle_tasks hj hsettle
    rw [htasks] at h
    rcases get_of_modify h with ⟨-, _, -, heq⟩ | ⟨-, hold⟩
    · exact absurd heq.symm (hother request result)
    · exact hold
  | answer j rows => exact absurd rfl (hanswer j rows)

theorem Answers.cases (h : Answers runtime s e request result) : Answer runtime s request result := by
  obtain ⟨t, i, hstep, hanswered, hnew⟩ := h
  by_cases hretrieve : ∃ other, e = .retrieveCustomerKnowledge other
  · obtain ⟨other, rfl⟩ := hretrieve
    obtain rfl := Option.some.inj hstep
    rw [System.retrieve] at hanswered
    split at hanswered
    · obtain ⟨rfl, rfl⟩ := spawn_answered hanswered hnew
      exact .nothing
    · split at hanswered
      · exact absurd hanswered hnew
      · split at hanswered
        · obtain ⟨rfl, rfl⟩ := spawn_answered hanswered hnew
          exact .catalog
        · exact absurd (spawn_other hanswered (by simp)) hnew
  · by_cases hanswer : ∃ j rows, e = .answer j rows
    · obtain ⟨j, rows, rfl⟩ := hanswer
      rw [step] at hstep
      split at hstep
      next other hj =>
        split at hstep
        next hrows =>
          obtain rfl := Option.some.inj hstep
          rcases get_of_modify hanswered with ⟨rfl, _, -, heq⟩ | ⟨-, hold⟩
          · obtain ⟨rfl, rfl⟩ := Task.answered.inj heq
            exact .passages rows (List.mem_of_getElem? hj) hrows
          · exact absurd hold hnew
        · cases hstep
      · cases hstep
    · push Not at hretrieve hanswer
      exact absurd (step_tasks hstep hretrieve hanswer hanswered) hnew

theorem answer_own (h : Inv runtime s) (hanswer : Answer runtime s request result) :
    ∀ hit ∈ result.hits, FromOwn runtime s request hit := by
  cases hanswer with
  | nothing => simp
  | catalog => exact fun hit hhit => catalog_own h hhit
  | passages rows hrequest hrows => exact fun hit hhit => passage_own h (h.tasks _ hrequest) hrows hhit

/-- Whatever others do in between, and wherever tasks have crashed, every hit of an answer
is a passage or a catalog entry of a document in a requested base of the customer, which was
ingested to the end from the text of someone who may write there; or it says that such a
base has no documents. -/
theorem hits_from_own_bases {events : List Event} (h : run (step runtime) initial events = some s)
    (hanswer : Answers runtime s e request result) : ∀ hit ∈ result.hits, FromOwn runtime s request hit :=
  answer_own (inv_run h) hanswer.cases

theorem answers_of_retrieve (hi : s.tasks[i]? = some (.retrieve request)) : Answers runtime s
    (.answer i (passages s.db (requestedIds request))) request
    (passageResult runtime request (passages s.db (requestedIds request))) := by
  refine ⟨s.become i (.answered request (passageResult runtime request (passages s.db (requestedIds request)))), i,
    ?_, ?_, by simp [hi]⟩
  · rw [step, hi]
    exact if_pos (List.Perm.refl _)
  · rw [System.become, Participants.get_modify, if_pos rfl, hi]
    rfl

def sampleRuntime : Runtime where
  cuid := fun k => List.replicate (k + 1) 97
  cuid_injective := by
    intro i j heq
    have hlength := congrArg List.length heq
    rw [List.length_replicate, List.length_replicate] at hlength
    exact Nat.succ.inj hlength
  unicode := DiversifiedChunks.ascii
  score := fun _ _ _ => 1
  isKnowledgeCatalogQuery := fun _ => false

def sampleUser : SessionUser := ⟨js "u", js "CUSTOMER"⟩

def sampleRequest : RetrievalRequest := ⟨js "u", js "q", [js " a "], none, none⟩

/-- A base with one document, and a request. -/
def sampleEvents : List Event :=
  [.createKnowledgeBaseAction sampleUser (js "kb"), .ingestKnowledgeDocumentAction sampleUser (js "a") [] (js "hi"),
    .settle 0, .settle 0, .settle 0, .settle 0, .retrieveCustomerKnowledge sampleRequest]

theorem hits_from_sample_base : ∃ (s : System) (result : RetrievalResult), result.hits ≠ [] ∧
    ∀ hit ∈ result.hits, FromOwn sampleRuntime s sampleRequest hit := by
  have hrun : ∃ s : System, s ∈ run (step sampleRuntime) initial sampleEvents ∧ s.tasks[1]? = some (.retrieve sampleRequest) ∧
      (passageResult sampleRuntime sampleRequest (passages s.db (requestedIds sampleRequest))).hits ≠ [] := by
    decide +kernel
  obtain ⟨s, hs, htask, hhits⟩ := hrun
  exact ⟨s, _, hhits, hits_from_own_bases hs (answers_of_retrieve htask)⟩

/-! ## What is deleted -/

theorem settle_change (h : Tables runtime s.db) (hsettle : s.settle runtime i task = some t) :
    Change runtime s.db t.db := by
  cases task with
  | createDocument submission =>
    rw [System.settle] at hsettle
    split at hsettle <;> obtain rfl := Option.some.inj hsettle
    next db' hcreate => exact (createDocument_change h hcreate).1
    · exact .refl h
  | createVersion d content =>
    rw [System.settle] at hsettle
    split at hsettle <;> obtain rfl := Option.some.inj hsettle
    next db' chunks hcreate hprepared => exact (createVersion_change h hcreate).1
    next db' hcreate hprepared => exact (createVersion_change h hcreate).1
    · exact .refl h
  | createChunks d v chunks =>
    rw [System.settle] at hsettle
    split at hsettle <;> obtain rfl := Option.some.inj hsettle
    next db' hcreate => exact (createChunks_change h hcreate).1
    · exact .refl h
  | succeed d =>
    obtain rfl := Option.some.inj hsettle
    cases hsucceed : s.db.succeed d with
    | none => exact .refl h
    | some db' => exact (succeed_change h hsucceed).1
  | deleteDocument d =>
    obtain rfl := Option.some.inj hsettle
    cases hdelete : s.db.deleteDocument d with
    | none => exact .refl h
    | some db' => exact (deleteDocument_change h hdelete).1
  | deleteKnowledgeBase id =>
    obtain rfl := Option.some.inj hsettle
    cases hdelete : s.db.deleteKnowledgeBase id with
    | none => exact .refl h
    | some db' => exact (deleteKnowledgeBase_change h hdelete).1
  | retrieve request => cases hsettle
  | answered request result => cases hsettle
  | ended => cases hsettle

theorem step_change (h : Tables runtime s.db) (hstep : step runtime s e = some t) : Change runtime s.db t.db := by
  cases e with
  | createKnowledgeBaseAction user name =>
    rw [step] at hstep
    split at hstep <;> obtain rfl := Option.some.inj hstep
    · exact .refl h
    · cases hcreate : s.db.createKnowledgeBase runtime user.id (ReservationCover.trim name) with
      | none => exact .refl h
      | some db' => exact (createKnowledgeBase_change h hcreate).1
  | ingestKnowledgeDocumentAction user id title content =>
    rw [step] at hstep
    split at hstep
    · split at hstep <;> obtain rfl := Option.some.inj hstep <;> exact .refl h
    · obtain rfl := Option.some.inj hstep
      exact .refl h
  | ingestTextDocument id title content =>
    obtain rfl := Option.some.inj hstep
    exact .refl h
  | deleteKnowledgeDocumentAction user d =>
    rw [step] at hstep
    split at hstep
    · split at hstep
      · split at hstep <;> obtain rfl := Option.some.inj hstep <;> exact .refl h
      · obtain rfl := Option.some.inj hstep
        exact .refl h
    · obtain rfl := Option.some.inj hstep
      exact .refl h
  | deleteKnowledgeBaseAction user id =>
    rw [step] at hstep
    split at hstep
    · split at hstep <;> obtain rfl := Option.some.inj hstep <;> exact .refl h
    · obtain rfl := Option.some.inj hstep
      exact .refl h
  | retrieveCustomerKnowledge request =>
    obtain rfl := Option.some.inj hstep
    rw [System.retrieve]
    split_ifs <;> exact .refl h
  | settle i =>
    obtain ⟨task, -, hsettle⟩ := Option.bind_eq_some_iff.mp hstep
    exact settle_change h hsettle
  | answer i rows =>
    rw [step] at hstep
    split at hstep
    · split at hstep
      · obtain rfl := Option.some.inj hstep
        exact .refl h
      · cases hstep
    · cases hstep

/-- The id was that of a document, and is no more. -/
def Gone (runtime : Runtime) (db : Db) (d : JsString) : Prop :=
  Used runtime db.next d ∧ ∀ document ∈ db.documents, document.id ≠ d

def BaseGone (runtime : Runtime) (db : Db) (id : JsString) : Prop :=
  Used runtime db.next id ∧ ∀ base ∈ db.knowledgeBases, base.id ≠ id

theorem Gone.change (h : Gone runtime db d) (hchange : Change runtime db db') : Gone runtime db' d := by
  refine ⟨h.1.mono hchange.next, fun document hdocument => ?_⟩
  cases hchange.documents document hdocument with
  | inl hold =>
    obtain ⟨old, hold, heq⟩ := List.mem_map.mp hold
    exact heq ▸ h.2 old hold
  | inr hnew => exact hnew d h.1

theorem BaseGone.change {id : JsString} (h : BaseGone runtime db id) (hchange : Change runtime db db') :
    BaseGone runtime db' id := by
  refine ⟨h.1.mono hchange.next, fun base hbase => ?_⟩
  cases hchange.bases base hbase with
  | inl hold => exact h.2 base hold
  | inr hnew => exact hnew id h.1

theorem gone_of_delete (h : Inv runtime s) (hi : s.tasks[i]? = some (.deleteDocument d))
    (hstep : step runtime s (.settle i) = some t) : Gone runtime t.db d := by
  have hused : Used runtime s.db.next d := h.tasks _ (List.mem_of_getElem? hi)
  rw [step, hi, Option.bind_some] at hstep
  obtain rfl := Option.some.inj hstep
  cases hdelete : s.db.deleteDocument d with
  | none =>
    refine ⟨hused, fun document hdocument heq => ?_⟩
    rw [Db.deleteDocument, Option.map_eq_none_iff, RelatedRows.find, List.find?_eq_none] at hdelete
    exact hdelete document hdocument (decide_eq_true heq)
  | some db' =>
    obtain ⟨hchange, -, hgone⟩ := deleteDocument_change h.tables hdelete
    exact ⟨hused.mono hchange.next, hgone⟩

theorem baseGone_of_delete {id : JsString} (h : Inv runtime s) (hi : s.tasks[i]? = some (.deleteKnowledgeBase id))
    (hstep : step runtime s (.settle i) = some t) : BaseGone runtime t.db id := by
  have hused : Used runtime s.db.next id := h.tasks _ (List.mem_of_getElem? hi)
  rw [step, hi, Option.bind_some] at hstep
  obtain rfl := Option.some.inj hstep
  cases hdelete : s.db.deleteKnowledgeBase id with
  | none =>
    refine ⟨hused, fun base hbase heq => ?_⟩
    rw [Db.deleteKnowledgeBase, Option.map_eq_none_iff, RelatedRows.find, List.find?_eq_none] at hdelete
    exact hdelete base hbase (decide_eq_true heq)
  | some db' =>
    obtain ⟨hchange, -, hgone⟩ := deleteKnowledgeBase_change h.tables hdelete
    exact ⟨hused.mono hchange.next, hgone⟩

/-- What no change of the tables undoes. -/
theorem kept_in_run {P : Db → Prop} (hkeep : ∀ db db', P db → Change runtime db db' → P db') {events : List Event}
    (h : Inv runtime s) (hp : P s.db) (hrun : run (step runtime) s events = some t) : Inv runtime t ∧ P t.db :=
  run_invariant (fun u => Inv runtime u ∧ P u.db)
    (fun _ _ _ hinv hstep => ⟨inv_step hinv.1 hstep, hkeep _ _ hinv.2 (step_change hinv.1.tables hstep)⟩) ⟨h, hp⟩ hrun

/-- Once a task has deleted a document or a base, no later answer has a passage of it or tells of
it, whatever was being ingested into it or retrieved from it at the time. -/
theorem deleted_for_good {events events' : List Event} {u : System} (d id : JsString)
    (h : run (step runtime) initial events = some s) (hi : s.tasks[i]? = some task)
    (hstep : step runtime s (.settle i) = some t) (hlater : run (step runtime) t events' = some u)
    (hanswer : Answers runtime u e request result) :
    (task = .deleteDocument d → ∀ hit ∈ result.hits, hit.documentId ≠ d ∨ ∃ base, hit = emptyEntry base) ∧
      (task = .deleteKnowledgeBase id → ∀ hit ∈ result.hits, hit.knowledgeBaseId ≠ id) := by
  have hinv := inv_run h
  constructor
  · rintro rfl hit hhit
    obtain ⟨hlast, hgone⟩ := kept_in_run (fun _ _ hgone hchange => Gone.change hgone hchange) (inv_step hinv hstep)
      (gone_of_delete hinv hi hstep) hlater
    obtain ⟨base, -, hempty | ⟨document, submission, chunks, hcomplete, hsource⟩⟩ :=
      answer_own hlast hanswer.cases hit hhit
    · exact .inr ⟨base, hempty⟩
    · left
      have hid : hit.documentId = document.id := by
        cases hsource with
        | inl hpassage => exact hpassage.inDocument
        | inr hentry =>
          obtain ⟨⟨index, rfl⟩, -⟩ := hentry
          rfl
      exact hid ▸ hgone.2 document hcomplete.mem
  · rintro rfl hit hhit
    obtain ⟨hlast, hgone⟩ := kept_in_run (fun _ _ hgone hchange => BaseGone.change hgone hchange) (inv_step hinv hstep)
      (baseGone_of_delete hinv hi hstep) hlater
    obtain ⟨base, hown, hsource⟩ := answer_own hlast hanswer.cases hit hhit
    have hid : hit.knowledgeBaseId = base.id := by
      rcases hsource with rfl | ⟨document, submission, chunks, -, hpassage | hentry⟩
      · rfl
      · exact hpassage.inBase
      · obtain ⟨⟨index, rfl⟩, -⟩ := hentry
        rfl
    exact hid ▸ hgone.2 base hown.mem

/-- The document is deleted while a request is waiting for its passages. -/
theorem deleted_for_good_sample : ∃ (u : System) (result : RetrievalResult), u.tasks[1]? = some (.retrieve sampleRequest) ∧
    ∀ hit ∈ result.hits, hit.documentId ≠ js "aa" ∨ ∃ base, hit = emptyEntry base := by
  have hrun : ∃ s : System, s ∈ run (step sampleRuntime) initial
      (sampleEvents ++ [.deleteKnowledgeDocumentAction sampleUser (js "aa")]) ∧
      s.tasks[2]? = some (.deleteDocument (js "aa")) ∧ ∃ t : System, t ∈ step sampleRuntime s (.settle 2) ∧
        t.tasks[1]? = some (.retrieve sampleRequest) := by
    decide +kernel
  obtain ⟨s, hs, htask, t, ht, hwaiting⟩ := hrun
  exact ⟨t, _, hwaiting, (deleted_for_good (js "aa") (js "a") hs htask ht (RunInvariant.run_nil t)
    (answers_of_retrieve hwaiting)).1 rfl⟩

end ModelForge.KnowledgeIsolation
