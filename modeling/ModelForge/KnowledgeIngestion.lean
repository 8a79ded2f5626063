import ModelForge.KnowledgeChanges
import ModelForge.Participants

set_option autoImplicit false

/-!
# Ingestion in steps

What holds in every state of the store, however the tasks are interleaved and wherever
they crash.
-/
namespace ModelForge.KnowledgeIngestion
open EventStream (JsString)
open KnowledgeChanges
open KnowledgeChunks (KnowledgeChunk)
open KnowledgeStore
open Participants (get_of_modify)
open RelatedRows
open RunInvariant (run run_invariant)

variable {runtime : Runtime} {db db' : Db} {s t : System} {d v : JsString} {base : KnowledgeBase}
  {document : KnowledgeDocument} {submission : Submission} {task task' : Task} {i : ℕ}

/-! ## What holds in every state -/

def toChunk (row : ChunkRow) : KnowledgeChunk := ⟨row.ordinal, row.content, row.tokenCount, row.embedding⟩

/-- The document has one version, with exactly these chunks. -/
def Full (db : Db) (d : JsString) (chunks : List KnowledgeChunk) : Prop :=
  ∃ v, (versionsOf db d).map DocumentVersion.id = [v] ∧ (chunksOf db v).map toChunk = chunks

theorem Full.mem {chunks : List KnowledgeChunk} (h : Full db d chunks) {version : DocumentVersion} {row : ChunkRow} (hversion : version ∈ db.versions)
    (hd : version.documentId = d) (hrow : row ∈ db.chunks) (hv : row.versionId = version.id) : toChunk row ∈ chunks := by
  obtain ⟨v, hversions, rfl⟩ := h
  have hmem : version.id ∈ (versionsOf db d).map DocumentVersion.id :=
    List.mem_map_of_mem (List.mem_filter.mpr ⟨hversion, decide_eq_true hd⟩)
  rw [hversions, List.mem_singleton] at hmem
  exact List.mem_map_of_mem (List.mem_filter.mpr ⟨hrow, decide_eq_true (hv.trans hmem)⟩)

/-- A document that is being ingested; it may have been deleted in the meantime. -/
def Awaiting (db : Db) (d : JsString) (P : Prop) : Prop :=
  ∀ document ∈ db.documents, document.id = d → document.status = .RUNNING ∧ P

/-- The user of a submission owns the base, while it exists. -/
def Allowed (runtime : Runtime) (db : Db) (submission : Submission) : Prop :=
  ∀ user ∈ submission.user, Used runtime db.next submission.knowledgeBaseId ∧
    ∀ base ∈ db.knowledgeBases, base.id = submission.knowledgeBaseId → Owns base.customerId user

/-- The document comes from a submission, and is complete once it has succeeded. -/
def Made (runtime : Runtime) (s : System) (document : KnowledgeDocument) : Prop :=
  ∃ submission, (document.id, submission) ∈ s.origins ∧ submission.knowledgeBaseId = document.knowledgeBaseId ∧
    submission.title = document.title ∧ (document.status = .SUCCEEDED →
      ∃ chunks, prepared runtime submission.content = some (.ok chunks) ∧ Full s.db document.id chunks)

/-- The document that a task works on. -/
def document? : Task → Option JsString
  | .createVersion d _ => some d
  | .createChunks d _ _ => some d
  | .succeed d => some d
  | _ => none

def TaskOk (runtime : Runtime) (s : System) : Task → Prop
  | .createDocument submission => Allowed runtime s.db submission
  | .createVersion d content => (∃ submission, (d, submission) ∈ s.origins ∧ submission.content = content) ∧
      Awaiting s.db d (versionsOf s.db d = [])
  | .createChunks d v chunks =>
      (∃ submission, (d, submission) ∈ s.origins ∧ prepared runtime submission.content = some (.ok chunks)) ∧
        Awaiting s.db d ((versionsOf s.db d).map DocumentVersion.id = [v] ∧ chunksOf s.db v = []) ∧
        Used runtime s.db.next v ∧ ∀ version ∈ s.db.versions, version.id = v → version.documentId = d
  | .succeed d => ∃ submission chunks, (d, submission) ∈ s.origins ∧ prepared runtime submission.content = some (.ok chunks) ∧
      Awaiting s.db d (Full s.db d chunks)
  | .retrieve request => ∀ id ∈ requestedIds request, Used runtime s.db.next id ∧
      ∀ base ∈ s.db.knowledgeBases, base.id = id → base.customerId = request.customerId
  | .deleteDocument d => Used runtime s.db.next d
  | .deleteKnowledgeBase id => Used runtime s.db.next id
  | _ => True

structure Inv (runtime : Runtime) (s : System) : Prop where
  tables : Tables runtime s.db
  originsUsed : ∀ origin ∈ s.origins, Used runtime s.db.next origin.1
  originsOnce : ∀ d submission submission', (d, submission) ∈ s.origins → (d, submission') ∈ s.origins →
    submission = submission'
  allowed : ∀ origin ∈ s.origins, Allowed runtime s.db origin.2
  made : ∀ document ∈ s.db.documents, Made runtime s document
  tasks : ∀ task ∈ s.tasks, TaskOk runtime s task
  once : ∀ (i j : ℕ) (d : JsString), s.tasks[i]?.bind document? = some d → s.tasks[j]?.bind document? = some d → i = j

theorem inv_initial (runtime : Runtime) : Inv runtime initial where
  tables := ⟨by simp [initial], by simp [initial], by simp [initial], List.nodup_nil, List.nodup_nil, List.nodup_nil,
    by simp [Refers, initial], by simp [Refers, initial], by simp [Refers, initial]⟩
  originsUsed := by simp [initial]
  originsOnce := by simp [initial]
  allowed := by simp [initial]
  made := by simp [initial]
  tasks := by simp [initial]
  once := by simp [initial]

/-! ### Changed tables -/

theorem Allowed.later (h : Allowed runtime db submission) (hchange : Change runtime db db') :
    Allowed runtime db' submission := by
  intro user huser
  obtain ⟨hused, howns⟩ := h user huser
  refine ⟨hused.mono hchange.next, fun base hbase heq => ?_⟩
  cases hchange.bases base hbase with
  | inl hold => exact howns base hold heq
  | inr hnew => exact absurd heq (hnew _ hused)

theorem Awaiting.later {P P' : Prop} (h : Awaiting db d P) (hkeeps : Keeps db db' d)
    (hsame : ∀ document ∈ db'.documents, document.id = d → P → P') : Awaiting db' d P' := by
  intro document hdocument heq
  obtain ⟨hrunning, hp⟩ := h document (hkeeps.row document hdocument heq) heq
  exact ⟨hrunning, hsame document hdocument heq hp⟩

theorem Full.later {chunks : List KnowledgeChunk} (h : Full db d chunks) (hkeeps : Keeps db db' d)
    (hdocument : document ∈ db'.documents) (heq : document.id = d) : Full db' d chunks := by
  obtain ⟨v, hv, hchunks⟩ := h
  refine ⟨v, by rw [hkeeps.versions document hdocument heq, hv], ?_⟩
  obtain ⟨version, hversion, rfl⟩ := List.mem_map.mp (hv ▸ List.mem_singleton_self v)
  rw [hkeeps.chunks document hdocument heq version hversion, hchunks]

theorem Made.later (h : Made runtime s document) (hkeeps : Keeps s.db t.db document.id)
    (hdocument : document ∈ t.db.documents) (horigins : ∀ origin ∈ s.origins, origin ∈ t.origins) :
    Made runtime t document := by
  obtain ⟨submission, horigin, hbase, htitle, hcomplete⟩ := h
  refine ⟨submission, horigins _ horigin, hbase, htitle, fun hsucceeded => ?_⟩
  obtain ⟨chunks, hprepared, hfull⟩ := hcomplete hsucceeded
  exact ⟨chunks, hprepared, hfull.later hkeeps hdocument rfl⟩

theorem TaskOk.later (h : TaskOk runtime s task) (hchange : Change runtime s.db t.db)
    (hkeeps : ∀ d ∈ document? task, Keeps s.db t.db d) (horigins : ∀ origin ∈ s.origins, origin ∈ t.origins) :
    TaskOk runtime t task := by
  cases task with
  | createDocument submission => exact Allowed.later h hchange
  | createVersion d content =>
    obtain ⟨⟨submission, horigin, hcontent⟩, hawaiting⟩ := h
    have hkept := hkeeps d rfl
    exact ⟨⟨submission, horigins _ horigin, hcontent⟩,
      hawaiting.later hkept fun document hdocument heq hnone => (hkept.versions document hdocument heq).trans hnone⟩
  | createChunks d v chunks =>
    obtain ⟨⟨submission, horigin, hprepared⟩, hawaiting, hused, howner⟩ := h
    have hkept := hkeeps d rfl
    refine ⟨⟨submission, horigins _ horigin, hprepared⟩, hawaiting.later hkept ?_, hused.mono hchange.next, ?_⟩
    · rintro document hdocument heq ⟨hversion, hnone⟩
      obtain ⟨version, hmem, rfl⟩ := List.mem_map.mp (hversion ▸ List.mem_singleton_self v)
      rw [hkept.versions document hdocument heq, hkept.chunks document hdocument heq version hmem]
      exact ⟨hversion, hnone⟩
    · intro version hmem heq
      cases hchange.versions version hmem with
      | inl hold => exact howner version hold heq
      | inr hnew => exact absurd heq (hnew _ hused)
  | succeed d =>
    obtain ⟨submission, chunks, horigin, hprepared, hawaiting⟩ := h
    have hkept := hkeeps d rfl
    exact ⟨submission, chunks, horigins _ horigin, hprepared,
      hawaiting.later hkept fun document hdocument heq hfull => hfull.later hkept hdocument heq⟩
  | retrieve request =>
    intro id hid
    obtain ⟨hused, howner⟩ := h id hid
    refine ⟨hused.mono hchange.next, fun base hbase heq => ?_⟩
    cases hchange.bases base hbase with
    | inl hold => exact howner base hold heq
    | inr hnew => exact absurd heq (hnew _ hused)
  | deleteDocument d => exact Used.mono h hchange.next
  | deleteKnowledgeBase id => exact Used.mono h hchange.next
  | answered request result => trivial
  | ended => trivial

/-! ### Steps -/

/-- No task works on the document. -/
def Free (s : System) (d : JsString) : Prop := ∀ j : ℕ, s.tasks[j]?.bind document? ≠ some d

/-- The tables change, but nowhere that a task is at work. -/
theorem Inv.changed (h : Inv runtime s) (hchange : Change runtime s.db db')
    (hkeeps : ∀ d, ¬ Free s d → Keeps s.db db' d)
    (hmade : ∀ document ∈ db'.documents, Keeps s.db db' document.id ∨ Made runtime { s with db := db' } document) :
    Inv runtime { s with db := db' } where
  tables := hchange.tables
  originsUsed := fun origin horigin => (h.originsUsed origin horigin).mono hchange.next
  originsOnce := h.originsOnce
  allowed := fun origin horigin => (h.allowed origin horigin).later hchange
  made := by
    intro document hdocument
    cases hmade document hdocument with
    | inl hkept => exact (h.made document (hkept.row document hdocument rfl)).later hkept hdocument fun _ horigin => horigin
    | inr hnew => exact hnew
  tasks := by
    intro task htask
    refine (h.tasks task htask).later hchange (fun d hd => hkeeps d fun hfree => ?_) fun _ horigin => horigin
    obtain ⟨j, hj⟩ := List.mem_iff_getElem?.mp htask
    exact hfree j (by rw [hj]; exact hd)
  once := h.once

theorem Inv.changed_all (h : Inv runtime s) (hchange : Change runtime s.db db') (hkeeps : ∀ d, Keeps s.db db' d) :
    Inv runtime { s with db := db' } :=
  h.changed hchange (fun d _ => hkeeps d) fun document _ => .inl (hkeeps document.id)

theorem Inv.spawn (h : Inv runtime s) (hok : TaskOk runtime s task) (hnone : document? task = none) :
    Inv runtime (s.spawn task) where
  tables := h.tables
  originsUsed := h.originsUsed
  originsOnce := h.originsOnce
  allowed := h.allowed
  made := h.made
  tasks := by
    intro task' htask
    cases List.mem_append.mp htask with
    | inl hold => exact h.tasks task' hold
    | inr hnew => exact List.mem_singleton.mp hnew ▸ hok
  once := by
    intro i j d hi hj
    rw [System.spawn, Participants.bind_concat hnone] at hi hj
    exact h.once i j d hi hj

/-- What a task becomes may work on a document that no other task works on. -/
theorem Inv.become (h : Inv runtime s) (hok : TaskOk runtime s task')
    (hfree : ∀ d ∈ document? task', ∀ j : ℕ, j ≠ i → s.tasks[j]?.bind document? ≠ some d) :
    Inv runtime (s.become i task') where
  tables := h.tables
  originsUsed := h.originsUsed
  originsOnce := h.originsOnce
  allowed := h.allowed
  made := h.made
  tasks := by
    intro task htask
    rcases Participants.mem_of_modify htask with ⟨_, -, rfl⟩ | hold
    · exact hok
    · exact h.tasks task hold
  once := by
    have hcases {j : ℕ} {d : JsString} (hj : (s.become i task').tasks[j]?.bind document? = some d) :
        j = i ∧ document? task' = some d ∨ j ≠ i ∧ s.tasks[j]?.bind document? = some d := by
      obtain ⟨task, htask, hd⟩ := Option.bind_eq_some_iff.mp hj
      rcases get_of_modify htask with ⟨rfl, _, -, rfl⟩ | ⟨hne, hold⟩
      · exact .inl ⟨rfl, hd⟩
      · exact .inr ⟨hne, by rw [hold]; exact hd⟩
    intro j k d hj hk
    rcases hcases hj with ⟨hji, hd⟩ | ⟨hjne, hjd⟩
    · rcases hcases hk with ⟨hki, -⟩ | ⟨hkne, hkd⟩
      · exact hji.trans hki.symm
      · exact absurd hkd (hfree d hd k hkne)
    · rcases hcases hk with ⟨-, hd⟩ | ⟨-, hkd⟩
      · exact absurd hjd (hfree d hd j hjne)
      · exact h.once j k d hjd hkd

theorem Inv.ended (h : Inv runtime s) (i : ℕ) : Inv runtime (s.become i .ended) :=
  h.become trivial (by simp [document?])

/-- Once its task is over, nobody works on a document. -/
theorem Inv.free (h : Inv runtime s) (hi : s.tasks[i]? = some task) (hd : document? task = some d) :
    Free (s.become i .ended) d := by
  intro j hj
  obtain ⟨other, hother, hdocument⟩ := Option.bind_eq_some_iff.mp hj
  rcases get_of_modify hother with ⟨rfl, _, -, rfl⟩ | ⟨hne, hold⟩
  · cases hdocument
  · exact hne (h.once j i d (by rw [hold]; exact hdocument) (by rw [hi]; exact hd))

theorem become_become (s : System) (i : ℕ) (task task' : Task) : (s.become i task).become i task' = s.become i task' := by
  rw [System.become, System.become, System.become, List.modify_modify_eq]
  rfl

/-- The task of a document goes on, and the tables change at that document. -/
theorem Inv.goes_on (h : Inv runtime s) (hi : s.tasks[i]? = some task) (hd : document? task = some d)
    (hchange : Change runtime s.db db') (hkeeps : ∀ d', d' ≠ d → ¬ Free (s.become i .ended) d' → Keeps s.db db' d')
    (hmade : ∀ document ∈ db'.documents, Keeps s.db db' document.id ∨
      Made runtime { (s.become i .ended) with db := db' } document)
    (hok : TaskOk runtime { (s.become i .ended) with db := db' } task') (hd' : ∀ d' ∈ document? task', d' = d) :
    Inv runtime { (s.become i task') with db := db' } := by
  have hfree := h.free hi hd
  have hinv : Inv runtime { (s.become i .ended) with db := db' } := (h.ended i).changed hchange
    (fun d' hbusy => hkeeps d' (fun heq => hbusy (heq ▸ hfree)) hbusy) hmade
  have hnext := hinv.become (i := i) hok fun d' hmem j _ => hd' d' hmem ▸ hfree j
  have hsame : System.become { (s.become i .ended) with db := db' } i task' = { (s.become i task') with db := db' } :=
    congrArg (fun u : System => { u with db := db' }) (become_become s i .ended task')
  rwa [hsame] at hnext

/-- A task works on documents that have been created. -/
theorem TaskOk.exists_origin (h : TaskOk runtime s task) (hd : document? task = some d) :
    ∃ submission, (d, submission) ∈ s.origins := by
  cases task with
  | createVersion d' content =>
    obtain rfl := Option.some.inj hd
    obtain ⟨⟨submission, horigin, -⟩, -⟩ := h
    exact ⟨submission, horigin⟩
  | createChunks d' v chunks =>
    obtain rfl := Option.some.inj hd
    obtain ⟨⟨submission, horigin, -⟩, -⟩ := h
    exact ⟨submission, horigin⟩
  | succeed d' =>
    obtain rfl := Option.some.inj hd
    obtain ⟨submission, -, horigin, -⟩ := h
    exact ⟨submission, horigin⟩
  | createDocument submission => cases hd
  | deleteDocument d' => cases hd
  | deleteKnowledgeBase id => cases hd
  | retrieve request => cases hd
  | answered request result => cases hd
  | ended => cases hd

theorem Inv.busy_used (h : Inv runtime s) (hbusy : ¬ Free s d) : Used runtime s.db.next d := by
  obtain ⟨j, hj⟩ := not_forall.mp hbusy
  obtain ⟨task, htask, hd⟩ := Option.bind_eq_some_iff.mp (not_not.mp hj)
  obtain ⟨submission, horigin⟩ := (h.tasks task (List.mem_of_getElem? htask)).exists_origin hd
  exact h.originsUsed _ horigin

/-- A document comes into being, together with what it is made from. -/
theorem Inv.created (h : Inv runtime s) (hallowed : Allowed runtime s.db submission)
    (hcreate : s.db.createDocument runtime submission.knowledgeBaseId submission.title = some db') :
    Inv runtime { s with db := db', origins := s.origins ++ [(runtime.cuid s.db.next, submission)] } := by
  obtain ⟨hchange, hkeeps, hdb⟩ := createDocument_change h.tables hcreate
  have hsub : ∀ origin ∈ s.origins, origin ∈ s.origins ++ [(runtime.cuid s.db.next, submission)] :=
    fun _ horigin => List.mem_append_left _ horigin
  have hnew : ∀ origin ∈ s.origins, origin.1 ≠ runtime.cuid s.db.next :=
    fun origin horigin => (h.originsUsed origin horigin).ne (le_refl _)
  refine ⟨hchange.tables, ?_, ?_, ?_, ?_, ?_, h.once⟩
  · refine List.forall_mem_append.mpr ⟨fun origin horigin => (h.originsUsed origin horigin).mono hchange.next, ?_⟩
    rw [List.forall_mem_singleton, hdb]
    exact used_cuid _
  · intro d a b ha hb
    cases List.mem_append.mp ha with
    | inl ha =>
      cases List.mem_append.mp hb with
      | inl hb => exact h.originsOnce d a b ha hb
      | inr hb => exact absurd (Prod.mk.inj (List.mem_singleton.mp hb)).1 (hnew _ ha)
    | inr ha =>
      cases List.mem_append.mp hb with
      | inl hb => exact absurd (Prod.mk.inj (List.mem_singleton.mp ha)).1 (hnew _ hb)
      | inr hb => exact (Prod.mk.inj (List.mem_singleton.mp ha)).2.trans (Prod.mk.inj (List.mem_singleton.mp hb)).2.symm
  · exact List.forall_mem_append.mpr ⟨fun origin horigin => (h.allowed origin horigin).later hchange,
      List.forall_mem_singleton.mpr (hallowed.later hchange)⟩
  · intro document hdocument
    by_cases hid : document.id = runtime.cuid s.db.next
    · have hmem := hdocument
      rw [hdb] at hmem
      cases List.mem_append.mp hmem with
      | inl hold => exact absurd hid ((h.tables.documentsUsed document hold).ne (le_refl _))
      | inr hmem =>
        obtain rfl := List.mem_singleton.mp hmem
        refine ⟨submission, List.mem_append_right _ (List.mem_singleton_self _), rfl, rfl, fun hsucceeded => ?_⟩
        cases hsucceeded
    · have hkept := hkeeps document.id hid
      exact (h.made document (hkept.row document hdocument rfl)).later hkept hdocument hsub
  · intro task htask
    refine (h.tasks task htask).later hchange (fun d hd => hkeeps d ?_) hsub
    obtain ⟨other, horigin⟩ := (h.tasks task htask).exists_origin hd
    exact hnew _ horigin

theorem Made.of_running (h : Made runtime s document) (hrunning : document.status = .RUNNING) :
    Made runtime { s with db := db' } document := by
  obtain ⟨submission, horigin, hbase, htitle, -⟩ := h
  refine ⟨submission, horigin, hbase, htitle, fun hsucceeded => ?_⟩
  rw [hrunning] at hsucceeded
  cases hsucceeded

theorem Inv.settle_createDocument (h : Inv runtime s) (hi : s.tasks[i]? = some (.createDocument submission))
    (hsettle : s.settle runtime i (.createDocument submission) = some t) : Inv runtime t := by
  rw [System.settle] at hsettle
  cases hcreate : s.db.createDocument runtime submission.knowledgeBaseId submission.title with
  | none =>
    rw [hcreate] at hsettle
    obtain rfl := Option.some.inj hsettle
    exact h.ended i
  | some db' =>
    rw [hcreate] at hsettle
    obtain rfl := Option.some.inj hsettle
    have hallowed : Allowed runtime s.db submission := h.tasks _ (List.mem_of_getElem? hi)
    have hcreated := h.created hallowed hcreate
    obtain ⟨-, -, hdb⟩ := createDocument_change h.tables hcreate
    have hawaiting : Awaiting db' (runtime.cuid s.db.next) (versionsOf db' (runtime.cuid s.db.next) = []) := by
      intro document hdocument hid
      constructor
      · subst hdb
        cases List.mem_append.mp hdocument with
        | inl hold => exact absurd hid ((h.tables.documentsUsed document hold).ne (le_refl _))
        | inr hnew => rw [List.mem_singleton.mp hnew]
      · rw [versionsOf, List.filter_eq_nil_iff]
        intro version hversion
        have hold : version ∈ s.db.versions := by rwa [hdb] at hversion
        obtain ⟨other, hother, heq⟩ := h.tables.toDocument version hold
        rw [decide_eq_true_eq, ← heq]
        exact (h.tables.documentsUsed other hother).ne (le_refl _)
    have horigin : (runtime.cuid s.db.next, submission) ∈ s.origins ++ [(runtime.cuid s.db.next, submission)] :=
      List.mem_append_right _ (List.mem_singleton_self _)
    refine hcreated.become ⟨⟨submission, horigin, rfl⟩, hawaiting⟩ ?_
    rintro d hd j - hj
    obtain rfl := Option.some.inj hd
    exact (h.busy_used (not_forall.mpr ⟨j, not_not.mpr hj⟩)).ne (le_refl _) rfl

/-- Where the document is being ingested, its rows may change. -/
theorem Inv.made_besides (h : Inv runtime s) (hkeeps : ∀ d', d' ≠ d → Keeps s.db db' d')
    (hsame : db'.documents = s.db.documents)
    (hrunning : ∀ document ∈ s.db.documents, document.id = d → document.status = .RUNNING) :
    ∀ document ∈ db'.documents, Keeps s.db db' document.id ∨
      Made runtime { (s.become i .ended) with db := db' } document := by
  intro document hdocument
  rw [hsame] at hdocument
  by_cases hid : document.id = d
  · exact .inr ((h.made document hdocument).of_running (hrunning document hdocument hid))
  · exact .inl (hkeeps document.id hid)

theorem Inv.settle_createVersion {content : JsString} (h : Inv runtime s)
    (hi : s.tasks[i]? = some (.createVersion d content))
    (hsettle : s.settle runtime i (.createVersion d content) = some t) : Inv runtime t := by
  rw [System.settle] at hsettle
  obtain ⟨⟨submission, horigin, hcontent⟩, hawaiting⟩ := h.tasks _ (List.mem_of_getElem? hi)
  cases hcreate : s.db.createVersion runtime d with
  | none =>
    rw [hcreate] at hsettle
    obtain rfl := Option.some.inj hsettle
    exact h.ended i
  | some db' =>
    obtain ⟨hchange, hkeeps, hdb⟩ := createVersion_change h.tables hcreate
    have hdocuments : db'.documents = s.db.documents := by rw [hdb]
    have hmade := h.made_besides (i := i) hkeeps hdocuments fun document hdocument heq =>
      (hawaiting document hdocument heq).1
    have hgoes {task' : Task} (hok : TaskOk runtime { (s.become i .ended) with db := db' } task')
        (hd : ∀ d' ∈ document? task', d' = d) : Inv runtime { (s.become i task') with db := db' } :=
      h.goes_on hi rfl hchange (fun d' hne _ => hkeeps d' hne) hmade hok hd
    -- the version is the only one, and nothing refers to it yet
    have hversions (document : KnowledgeDocument) (hdocument : document ∈ db'.documents) (heq : document.id = d) :
        (versionsOf db' d).map DocumentVersion.id = [runtime.cuid s.db.next] := by
      have hnone := (hawaiting document (hdocuments ▸ hdocument) heq).2
      rw [versionsOf, hdb, List.filter_append]
      rw [versionsOf] at hnone
      simp [hnone]
    have hchunks : chunksOf db' (runtime.cuid s.db.next) = [] := by
      rw [chunksOf, hdb, List.filter_eq_nil_iff]
      intro row hrow
      obtain ⟨version, hversion, heq⟩ := h.tables.toVersion row hrow
      rw [decide_eq_true_eq, ← heq]
      exact (h.tables.versionsUsed version hversion).ne (le_refl _)
    rw [hcreate] at hsettle
    dsimp only at hsettle
    split at hsettle
    next _ db'' chunks heq hprepared =>
      obtain rfl := Option.some.inj heq
      obtain rfl := Option.some.inj hsettle
      rw [← hcontent] at hprepared
      split
      · refine hgoes ⟨⟨submission, horigin, hprepared⟩, ?_, ?_, ?_⟩ fun d' hd' => (Option.some.inj hd').symm
        · intro document hdocument heq
          exact ⟨(hawaiting document (hdocuments ▸ hdocument) heq).1, hversions document hdocument heq, hchunks⟩
        · rw [hdb]
          exact used_cuid _
        · intro version hversion hid
          rw [hdb] at hversion
          cases List.mem_append.mp hversion with
          | inl hold => exact absurd hid ((h.tables.versionsUsed version hold).ne (le_refl _))
          | inr hnew => rw [List.mem_singleton.mp hnew]
      next hnone =>
        refine hgoes ⟨submission, chunks, horigin, hprepared, ?_⟩ fun d' hd' => (Option.some.inj hd').symm
        intro document hdocument heq
        refine ⟨(hawaiting document (hdocuments ▸ hdocument) heq).1, _, hversions document hdocument heq, ?_⟩
        rw [hchunks, List.eq_nil_of_length_eq_zero (Nat.eq_zero_of_not_pos hnone)]
        rfl
    next _ db'' _ heq _ =>
      obtain rfl := Option.some.inj heq
      obtain rfl := Option.some.inj hsettle
      exact hgoes trivial (by simp [document?])
    next heq => cases heq

theorem map_toChunk_rows (next : ℕ) (v : JsString) (chunks : List KnowledgeChunk) :
    (chunks.mapIdx (Db.rowOf runtime next v)).map toChunk = chunks := by
  apply List.ext_getElem?
  intro i
  rw [List.getElem?_map, List.getElem?_mapIdx, Option.map_map]
  exact Option.map_id'

theorem Inv.settle_createChunks {chunks : List KnowledgeChunk} (h : Inv runtime s)
    (hi : s.tasks[i]? = some (.createChunks d v chunks))
    (hsettle : s.settle runtime i (.createChunks d v chunks) = some t) : Inv runtime t := by
  rw [System.settle] at hsettle
  obtain ⟨⟨submission, horigin, hprepared⟩, hawaiting, -, howner⟩ := h.tasks _ (List.mem_of_getElem? hi)
  cases hcreate : s.db.createChunks runtime v chunks with
  | none =>
    rw [hcreate] at hsettle
    obtain rfl := Option.some.inj hsettle
    exact h.ended i
  | some db' =>
    rw [hcreate] at hsettle
    obtain rfl := Option.some.inj hsettle
    obtain ⟨hchange, hkeeps, hdb⟩ := createChunks_change h.tables hcreate
    have hothers (d' : JsString) (hne : d' ≠ d) : Keeps s.db db' d' := by
      refine hkeeps d' fun version hversion heq => hne ?_
      obtain ⟨hmem, hid⟩ := List.mem_filter.mp hversion
      exact (of_decide_eq_true hid).symm.trans (howner version hmem heq)
    have hdocuments : db'.documents = s.db.documents := by rw [hdb]
    have hmade := h.made_besides (i := i) hothers hdocuments fun document hdocument heq =>
      (hawaiting document hdocument heq).1
    refine h.goes_on hi rfl hchange (fun d' hne _ => hothers d' hne) hmade ⟨submission, chunks, horigin, hprepared, ?_⟩
      fun d' hd' => (Option.some.inj hd').symm
    intro document hdocument heq
    obtain ⟨hrunning, hversions, hnone⟩ := hawaiting document (hdocuments ▸ hdocument) heq
    refine ⟨hrunning, v, ?_, ?_⟩
    · rw [versionsOf, hdb]
      exact hversions
    · have hrows : chunksOf db' v = chunks.mapIdx (Db.rowOf runtime s.db.next v) := by
        rw [chunksOf, hdb, List.filter_append, ← chunksOf, hnone, List.nil_append, List.filter_eq_self]
        intro row hrow
        exact decide_eq_true (versionId_rowOf hrow)
      rw [hrows, map_toChunk_rows]

theorem Inv.settle_succeed (h : Inv runtime s) (hi : s.tasks[i]? = some (.succeed d))
    (hsettle : s.settle runtime i (.succeed d) = some t) : Inv runtime t := by
  rw [System.settle] at hsettle
  obtain rfl := Option.some.inj hsettle
  obtain ⟨submission, chunks, horigin, hprepared, hawaiting⟩ := h.tasks _ (List.mem_of_getElem? hi)
  cases hsucceed : s.db.succeed d with
  | none => exact h.ended i
  | some db' =>
    obtain ⟨hchange, hkeeps, hdb⟩ := succeed_change h.tables hsucceed
    refine h.goes_on hi rfl hchange (fun d' hne _ => hkeeps d' hne) ?_ trivial (by simp [document?])
    intro document hdocument
    by_cases hid : document.id = d
    · right
      have hmem := hdocument
      rw [Option.getD_some, hdb] at hmem
      obtain ⟨old, hold, heq⟩ := mem_update.mp hmem
      have holdid : old.id = d := by
        rw [← hid, ← heq]
        split <;> rfl
      rw [if_pos holdid] at heq
      obtain ⟨other, hother, hbase, htitle, -⟩ := h.made old hold
      obtain rfl := h.originsOnce _ _ _ horigin (holdid ▸ hother)
      refine ⟨submission, hid ▸ horigin, ?_, ?_, fun _ => ⟨chunks, hprepared, ?_⟩⟩
      · rw [hbase, ← heq]
      · rw [htitle, ← heq]
      · obtain ⟨v, hversions, hchunks⟩ := (hawaiting old hold holdid).2
        rw [hid, Option.getD_some, hdb]
        exact ⟨v, hversions, hchunks⟩
    · exact .inl (hkeeps document.id hid)

theorem Inv.settle (h : Inv runtime s) (hi : s.tasks[i]? = some task) (hsettle : s.settle runtime i task = some t) :
    Inv runtime t := by
  have hdelete (db' : Db) (hchange : Change runtime s.db db') (hkeeps : ∀ d, Keeps s.db db' d) :
      Inv runtime { (s.become i .ended) with db := db' } :=
    (h.ended i).changed_all hchange hkeeps
  cases task with
  | createDocument submission => exact h.settle_createDocument hi hsettle
  | createVersion d content => exact h.settle_createVersion hi hsettle
  | createChunks d v chunks => exact h.settle_createChunks hi hsettle
  | succeed d => exact h.settle_succeed hi hsettle
  | deleteDocument d =>
    obtain rfl := Option.some.inj hsettle
    cases hdeleted : s.db.deleteDocument d with
    | none => exact h.ended i
    | some db' =>
      obtain ⟨hchange, hkeeps, -⟩ := deleteDocument_change h.tables hdeleted
      exact hdelete db' hchange hkeeps
  | deleteKnowledgeBase id =>
    obtain rfl := Option.some.inj hsettle
    cases hdeleted : s.db.deleteKnowledgeBase id with
    | none => exact h.ended i
    | some db' =>
      obtain ⟨hchange, hkeeps, -⟩ := deleteKnowledgeBase_change h.tables hdeleted
      exact hdelete db' hchange hkeeps
  | retrieve request => cases hsettle
  | answered request result => cases hsettle
  | ended => cases hsettle

/-! ### The checks -/

/-- Where as many bases are the customer's as are requested, all of them are. -/
theorem own_of_length (h : Tables runtime db) (request : RetrievalRequest)
    (hlength : (ownBases db request).length = (requestedIds request).length) :
    ∀ id ∈ requestedIds request, ∃ base ∈ db.knowledgeBases, base.id = id ∧ base.customerId = request.customerId := by
  have hsub : ((ownBases db request).map KnowledgeBase.id) ⊆ requestedIds request := by
    intro id hid
    obtain ⟨base, hbase, rfl⟩ := List.mem_map.mp hid
    exact List.contains_iff_mem.mp (of_decide_eq_true (List.mem_filter.mp hbase).2).2
  have hnodup : ((ownBases db request).map KnowledgeBase.id).Nodup := h.bases.of_sublist List.filter_sublist
  have hperm : ((ownBases db request).map KnowledgeBase.id).Perm (requestedIds request) := by
    refine (List.subperm_of_subset hnodup hsub).perm_of_length_le ?_
    rw [List.length_map, hlength]
  intro id hid
  obtain ⟨base, hbase, rfl⟩ := List.mem_map.mp (hperm.mem_iff.mpr hid)
  obtain ⟨hmem, hown⟩ := List.mem_filter.mp hbase
  exact ⟨base, hmem, rfl, (of_decide_eq_true hown).1⟩

theorem Inv.retrieve (h : Inv runtime s) (request : RetrievalRequest) : Inv runtime (s.retrieve runtime request) := by
  rw [System.retrieve]
  split
  · exact h.spawn trivial rfl
  · split
    · exact h
    next hlength =>
      split
      · exact h.spawn trivial rfl
      · refine h.spawn ?_ rfl
        intro id hid
        obtain ⟨base, hbase, rfl, hcustomer⟩ := own_of_length h.tables request (not_not.mp hlength) id hid
        exact ⟨h.tables.basesUsed base hbase, fun other hother heq => h.tables.owner_eq hbase hother heq ▸ hcustomer⟩

theorem inv_step {e : Event} (h : Inv runtime s) (hstep : step runtime s e = some t) : Inv runtime t := by
  cases e with
  | createKnowledgeBaseAction user name =>
    rw [step] at hstep
    split at hstep
    · obtain rfl := Option.some.inj hstep
      exact h
    · obtain rfl := Option.some.inj hstep
      cases hcreate : s.db.createKnowledgeBase runtime user.id (ReservationCover.trim name) with
      | none => exact h
      | some db' =>
        obtain ⟨hchange, hkeeps⟩ := createKnowledgeBase_change h.tables hcreate
        exact h.changed_all hchange hkeeps
  | ingestKnowledgeDocumentAction user knowledgeBaseId title content =>
    rw [step] at hstep
    split at hstep
    next base hbase =>
      split at hstep
      next hchecked =>
        obtain rfl := Option.some.inj hstep
        obtain ⟨hmem, rfl⟩ := find_eq_some hbase
        refine h.spawn ?_ rfl
        rintro user' huser
        obtain rfl := Option.some.inj huser
        exact ⟨h.tables.basesUsed base hmem, fun other hother heq => h.tables.owner_eq hmem hother heq ▸ hchecked.1⟩
      · obtain rfl := Option.some.inj hstep
        exact h
    · obtain rfl := Option.some.inj hstep
      exact h
  | ingestTextDocument knowledgeBaseId title content =>
    obtain rfl := Option.some.inj hstep
    refine h.spawn ?_ rfl
    intro user huser
    cases huser
  | deleteKnowledgeDocumentAction user d =>
    rw [step] at hstep
    split at hstep
    next document hdocument =>
      split at hstep
      · split at hstep <;> obtain rfl := Option.some.inj hstep
        · obtain ⟨hmem, rfl⟩ := find_eq_some hdocument
          exact h.spawn (h.tables.documentsUsed document hmem) rfl
        · exact h
      · obtain rfl := Option.some.inj hstep
        exact h
    · obtain rfl := Option.some.inj hstep
      exact h
  | deleteKnowledgeBaseAction user id =>
    rw [step] at hstep
    split at hstep
    next base hbase =>
      split at hstep <;> obtain rfl := Option.some.inj hstep
      · obtain ⟨hmem, rfl⟩ := find_eq_some hbase
        exact h.spawn (h.tables.basesUsed base hmem) rfl
      · exact h
    · obtain rfl := Option.some.inj hstep
      exact h
  | retrieveCustomerKnowledge request =>
    obtain rfl := Option.some.inj hstep
    exact h.retrieve request
  | settle i =>
    obtain ⟨task, hi, hsettle⟩ := Option.bind_eq_some_iff.mp hstep
    exact h.settle hi hsettle
  | answer i rows =>
    rw [step] at hstep
    split at hstep
    · split at hstep
      · obtain rfl := Option.some.inj hstep
        exact h.become trivial (by simp [document?])
      · cases hstep
    · cases hstep

theorem inv_run {events : List Event} (h : run (step runtime) initial events = some s) : Inv runtime s :=
  run_invariant (Inv runtime) (fun _ _ _ hinv hstep => inv_step hinv hstep) (inv_initial runtime) h

end ModelForge.KnowledgeIngestion
