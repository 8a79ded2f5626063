import ModelForge.KnowledgeStore

set_option autoImplicit false

/-!
# Changes of the tables

What each change of the tables of knowledge leaves as it is.
-/
namespace ModelForge.KnowledgeChanges
open EventStream (JsString)
open KnowledgeChunks (KnowledgeChunk)
open KnowledgeStore
open RelatedRows

variable {runtime : Runtime} {db db' : Db} {d v : JsString} {base : KnowledgeBase} {document : KnowledgeDocument}

/-! ## Ids -/

/-- The id has been given out. -/
def Used (runtime : Runtime) (next : ℕ) (id : JsString) : Prop := ∃ k < next, id = runtime.cuid k

theorem Used.mono {n m : ℕ} (h : Used runtime n d) (hle : n ≤ m) : Used runtime m d := by
  obtain ⟨k, hk, hd⟩ := h
  exact ⟨k, hk.trans_le hle, hd⟩

theorem Used.ne {n m : ℕ} (h : Used runtime n d) (hle : n ≤ m) : d ≠ runtime.cuid m := by
  obtain ⟨k, hk, rfl⟩ := h
  intro heq
  have := runtime.cuid_injective heq
  omega

theorem used_cuid (n : ℕ) : Used runtime (n + 1) (runtime.cuid n) := ⟨n, n.lt_succ_self, rfl⟩

/-! ## Tables -/

/-- What the schema promises of the tables. -/
structure Tables (runtime : Runtime) (db : Db) : Prop where
  basesUsed : ∀ base ∈ db.knowledgeBases, Used runtime db.next base.id
  documentsUsed : ∀ document ∈ db.documents, Used runtime db.next document.id
  versionsUsed : ∀ version ∈ db.versions, Used runtime db.next version.id
  bases : Keyed KnowledgeBase.id db.knowledgeBases
  documents : Keyed KnowledgeDocument.id db.documents
  versions : Keyed DocumentVersion.id db.versions
  toBase : Refers KnowledgeDocument.knowledgeBaseId db.documents KnowledgeBase.id db.knowledgeBases
  toDocument : Refers DocumentVersion.documentId db.versions KnowledgeDocument.id db.documents
  toVersion : Refers ChunkRow.versionId db.chunks DocumentVersion.id db.versions

theorem Tables.owner_eq (h : Tables runtime db) (hbase : base ∈ db.knowledgeBases) {other : KnowledgeBase}
    (hother : other ∈ db.knowledgeBases) (heq : other.id = base.id) : other = base :=
  h.bases.eq hother hbase heq

def versionsOf (db : Db) (d : JsString) : List DocumentVersion := db.versions.filter fun version => version.documentId = d

def chunksOf (db : Db) (v : JsString) : List ChunkRow := db.chunks.filter fun chunk => chunk.versionId = v

/-- Nothing happens to the rows of the document, unless it is deleted. -/
structure Keeps (db db' : Db) (d : JsString) : Prop where
  row : ∀ document ∈ db'.documents, document.id = d → document ∈ db.documents
  versions : ∀ document ∈ db'.documents, document.id = d → versionsOf db' d = versionsOf db d
  chunks : ∀ document ∈ db'.documents, document.id = d → ∀ version ∈ versionsOf db d,
    chunksOf db' version.id = chunksOf db version.id

/-- What every change of the tables respects. -/
structure Change (runtime : Runtime) (db db' : Db) : Prop where
  tables : Tables runtime db'
  next : db.next ≤ db'.next
  bases : ∀ base ∈ db'.knowledgeBases, base ∈ db.knowledgeBases ∨ ∀ id, Used runtime db.next id → base.id ≠ id
  versions : ∀ version ∈ db'.versions, version ∈ db.versions ∨ ∀ id, Used runtime db.next id → version.id ≠ id
  documents : ∀ document ∈ db'.documents, document.id ∈ db.documents.map KnowledgeDocument.id ∨
    ∀ id, Used runtime db.next id → document.id ≠ id

theorem Change.refl (h : Tables runtime db) : Change runtime db db := 
  ⟨h, le_refl _, fun _ hbase => .inl hbase, fun _ hversion => .inl hversion,
    fun _ hdocument => .inl (List.mem_map_of_mem hdocument)⟩

theorem Keeps.refl (db : Db) (d : JsString) : Keeps db db d := ⟨fun _ h _ => h, fun _ _ _ => rfl, fun _ _ _ _ _ => rfl⟩

/-! ### Inserting -/

theorem createKnowledgeBase_change {customerId name : JsString} (h : Tables runtime db)
    (hcreate : db.createKnowledgeBase runtime customerId name = some db') :
    Change runtime db db' ∧ ∀ d, Keeps db db' d := by
  unfold Db.createKnowledgeBase at hcreate
  split at hcreate
  · cases hcreate
  · obtain rfl := Option.some.inj hcreate
    have hle : db.next ≤ db.next + 1 := Nat.le_succ _
    refine ⟨⟨⟨?_, fun o ho => (h.documentsUsed o ho).mono hle, fun o ho => (h.versionsUsed o ho).mono hle, ?_, h.documents,
      h.versions, ?_, h.toDocument, h.toVersion⟩, hle, ?_, fun _ hversion => .inl hversion,
      fun _ hdocument => .inl (List.mem_map_of_mem hdocument)⟩, fun d => ⟨fun _ h _ => h, fun _ _ _ => rfl, fun _ _ _ _ _ => rfl⟩⟩
    · exact List.forall_mem_append.mpr ⟨fun o ho => (h.basesUsed o ho).mono hle, List.forall_mem_singleton.mpr (used_cuid _)⟩
    · exact h.bases.insert fun other hother => (h.basesUsed other hother).ne (le_refl _)
    · refine h.toBase.mono fun k hk => ?_
      rw [List.map_append]
      exact List.mem_append_left _ hk
    · intro base hbase
      cases List.mem_append.mp hbase with
      | inl hold => exact .inl hold
      | inr hnew => exact .inr fun id hid heq => hid.ne (le_refl _) (List.mem_singleton.mp hnew ▸ heq).symm

theorem createDocument_change {knowledgeBaseId title : JsString} (h : Tables runtime db)
    (hcreate : db.createDocument runtime knowledgeBaseId title = some db') :
    Change runtime db db' ∧ (∀ d, d ≠ runtime.cuid db.next → Keeps db db' d) ∧
      db' = { db with next := db.next + 1,
                      documents := db.documents ++ [⟨runtime.cuid db.next, knowledgeBaseId, title, .RUNNING⟩] } := by
  obtain ⟨base, hbase, rfl⟩ := Option.map_eq_some_iff.mp hcreate
  obtain ⟨hmem, hid⟩ := find_eq_some hbase
  have hle : db.next ≤ db.next + 1 := Nat.le_succ _
  refine ⟨⟨⟨fun o ho => (h.basesUsed o ho).mono hle, ?_, fun o ho => (h.versionsUsed o ho).mono hle, h.bases, ?_,
    h.versions, h.toBase.insert hmem hid, ?_, h.toVersion⟩, hle, fun _ hbase => .inl hbase,
    fun _ hversion => .inl hversion, ?_⟩, ?_, rfl⟩
  · exact List.forall_mem_append.mpr ⟨fun o ho => (h.documentsUsed o ho).mono hle, List.forall_mem_singleton.mpr (used_cuid _)⟩
  · exact h.documents.insert fun other hother => (h.documentsUsed other hother).ne (le_refl _)
  · refine h.toDocument.mono fun k hk => ?_
    rw [List.map_append]
    exact List.mem_append_left _ hk
  · intro document hdocument
    cases List.mem_append.mp hdocument with
    | inl hold => exact .inl (List.mem_map_of_mem hold)
    | inr hnew => exact .inr fun id hid heq => hid.ne (le_refl _) (List.mem_singleton.mp hnew ▸ heq).symm
  · intro d hd
    refine ⟨fun document hdocument heq => ?_, fun _ _ _ => rfl, fun _ _ _ _ _ => rfl⟩
    cases List.mem_append.mp hdocument with
    | inl hold => exact hold
    | inr hnew =>
      rw [List.mem_singleton.mp hnew] at heq
      exact absurd heq.symm hd

theorem createVersion_change (h : Tables runtime db) (hcreate : db.createVersion runtime d = some db') :
    Change runtime db db' ∧ (∀ d', d' ≠ d → Keeps db db' d') ∧
      db' = { db with next := db.next + 1, versions := db.versions ++ [⟨runtime.cuid db.next, d, 1⟩] } := by
  obtain ⟨document, hdocument, rfl⟩ := Option.map_eq_some_iff.mp hcreate
  obtain ⟨hmem, hid⟩ := find_eq_some hdocument
  have hle : db.next ≤ db.next + 1 := Nat.le_succ _
  refine ⟨⟨⟨fun o ho => (h.basesUsed o ho).mono hle, fun o ho => (h.documentsUsed o ho).mono hle, ?_, h.bases, h.documents,
    ?_, h.toBase, h.toDocument.insert hmem hid, ?_⟩, hle, fun _ hbase => .inl hbase, ?_,
    fun _ hdocument => .inl (List.mem_map_of_mem hdocument)⟩, ?_, rfl⟩
  · exact List.forall_mem_append.mpr ⟨fun o ho => (h.versionsUsed o ho).mono hle, List.forall_mem_singleton.mpr (used_cuid _)⟩
  · exact h.versions.insert fun other hother => (h.versionsUsed other hother).ne (le_refl _)
  · refine h.toVersion.mono fun k hk => ?_
    rw [List.map_append]
    exact List.mem_append_left _ hk
  · intro version hversion
    cases List.mem_append.mp hversion with
    | inl hold => exact .inl hold
    | inr hnew => exact .inr fun id hid heq => hid.ne (le_refl _) (List.mem_singleton.mp hnew ▸ heq).symm
  · intro d' hd'
    refine ⟨fun _ h _ => h, fun _ _ _ => ?_, fun _ _ _ _ _ => rfl⟩
    rw [versionsOf, List.filter_append]
    simp [versionsOf, hd'.symm]

theorem versionId_rowOf {next : ℕ} {chunks : List KnowledgeChunk} {row : ChunkRow}
    (h : row ∈ chunks.mapIdx (Db.rowOf runtime next v)) : row.versionId = v := by
  obtain ⟨i, hi, rfl⟩ := List.mem_mapIdx.mp h
  rfl

theorem createChunks_change {chunks : List KnowledgeChunk} (h : Tables runtime db)
    (hcreate : db.createChunks runtime v chunks = some db') :
    Change runtime db db' ∧ (∀ d, (∀ version ∈ versionsOf db d, version.id ≠ v) → Keeps db db' d) ∧
      db' = { db with next := db.next + chunks.length,
                      chunks := db.chunks ++ chunks.mapIdx (Db.rowOf runtime db.next v) } := by
  obtain ⟨version, hversion, rfl⟩ := Option.map_eq_some_iff.mp hcreate
  obtain ⟨hmem, hid⟩ := find_eq_some hversion
  have hle : db.next ≤ db.next + chunks.length := Nat.le_add_right _ _
  refine ⟨⟨⟨fun o ho => (h.basesUsed o ho).mono hle, fun o ho => (h.documentsUsed o ho).mono hle,
    fun o ho => (h.versionsUsed o ho).mono hle, h.bases, h.documents, h.versions, h.toBase, h.toDocument, ?_⟩, hle,
    fun _ hbase => .inl hbase, fun _ hversion => .inl hversion,
    fun _ hdocument => .inl (List.mem_map_of_mem hdocument)⟩, ?_, rfl⟩
  · intro row hrow
    cases List.mem_append.mp hrow with
    | inl hold => exact h.toVersion row hold
    | inr hnew => exact ⟨version, hmem, hid.trans (versionId_rowOf hnew).symm⟩
  · intro d hd
    refine ⟨fun _ h _ => h, fun _ _ _ => rfl, fun _ _ _ version hversion => ?_⟩
    have hnone : (chunks.mapIdx (Db.rowOf runtime db.next v)).filter (fun chunk => chunk.versionId = version.id) = [] := by
      rw [List.filter_eq_nil_iff]
      intro row hrow
      rw [versionId_rowOf hrow, decide_eq_true_eq]
      exact (hd version hversion).symm
    rw [chunksOf, List.filter_append, hnone, List.append_nil]
    rfl

/-! ### Changing and deleting -/

theorem succeed_change (h : Tables runtime db) (hsucceed : db.succeed d = some db') :
    Change runtime db db' ∧ (∀ d', d' ≠ d → Keeps db db' d') ∧
      db' = { db with documents := update KnowledgeDocument.id d ({ · with status := .SUCCEEDED }) db.documents } := by
  obtain ⟨document, hdocument, rfl⟩ := Option.map_eq_some_iff.mp hsucceed
  have hids : (update KnowledgeDocument.id d ({ · with status := .SUCCEEDED }) db.documents).map KnowledgeDocument.id =
      db.documents.map KnowledgeDocument.id := map_update fun _ => rfl
  have hbases : (update KnowledgeDocument.id d ({ · with status := .SUCCEEDED }) db.documents).map
      KnowledgeDocument.knowledgeBaseId = db.documents.map KnowledgeDocument.knowledgeBaseId := map_update fun _ => rfl
  refine ⟨⟨⟨h.basesUsed, ?_, h.versionsUsed, h.bases, ?_, h.versions, ?_, ?_, h.toVersion⟩, le_refl _,
    fun _ hbase => .inl hbase, fun _ hversion => .inl hversion, ?_⟩, ?_, rfl⟩
  · intro document hdocument
    have hmem := List.mem_map_of_mem (f := KnowledgeDocument.id) hdocument
    rw [hids] at hmem
    obtain ⟨old, hold, heq⟩ := List.mem_map.mp hmem
    exact heq ▸ h.documentsUsed old hold
  · rw [Keyed, hids]
    exact h.documents
  · intro document hdocument
    have hmem := List.mem_map_of_mem (f := KnowledgeDocument.knowledgeBaseId) hdocument
    rw [hbases] at hmem
    obtain ⟨old, hold, heq⟩ := List.mem_map.mp hmem
    exact heq ▸ h.toBase old hold
  · refine h.toDocument.mono fun k hk => ?_
    rw [hids]
    exact hk
  · intro document hdocument
    exact .inl (hids ▸ List.mem_map_of_mem hdocument)
  · intro d' hd'
    refine ⟨fun document hdocument heq => ?_, fun _ _ _ => rfl, fun _ _ _ _ _ => rfl⟩
    obtain ⟨old, hold, rfl⟩ := mem_update.mp hdocument
    by_cases hid : old.id = d
    · rw [if_pos hid] at heq
      exact absurd (heq.symm.trans hid) hd'
    · rw [if_neg hid]
      exact hold

/-- What is deleted goes with everything below it, and the rest stays. -/
theorem cascaded_change (db'' : Db) (h : Tables runtime db) (hnext : db''.next = db.next)
    (hbases : db''.knowledgeBases.Sublist db.knowledgeBases) (hdocuments : db''.documents.Sublist db.documents)
    (hversions : db''.versions = db.versions) (hchunks : db''.chunks = db.chunks) :
    Change runtime db db''.cascaded ∧ (∀ d, Keeps db db''.cascaded d) ∧
      ∀ document ∈ db''.cascaded.documents, document ∈ db''.documents := by
  have hstay {document : KnowledgeDocument} (hdocument : document ∈ db''.cascaded.documents) : document ∈ db''.documents :=
    (mem_cascade.mp hdocument).1
  have hversion {version : DocumentVersion} (hmem : version ∈ db''.cascaded.versions) : version ∈ db.versions :=
    hversions ▸ (mem_cascade.mp hmem).1
  refine ⟨⟨⟨?_, ?_, ?_, h.bases.of_sublist hbases, ?_, ?_, refers_cascade _ _ _ _, refers_cascade _ _ _ _,
    refers_cascade _ _ _ _⟩, hnext.ge, fun base hbase => .inl (hbases.mem hbase),
    fun version hmem => .inl (hversion hmem),
    fun document hdocument => .inl (List.mem_map_of_mem (hdocuments.mem (hstay hdocument)))⟩, ?_,
    fun _ hdocument => hstay hdocument⟩
  · intro base hbase
    exact (h.basesUsed base (hbases.mem hbase)).mono hnext.ge
  · intro document hdocument
    exact (h.documentsUsed document (hdocuments.mem (hstay hdocument))).mono hnext.ge
  · intro version hmem
    exact (h.versionsUsed version (hversion hmem)).mono hnext.ge
  · exact h.documents.of_sublist ((cascade_sublist _ _ _ _).trans hdocuments)
  · exact h.versions.of_sublist ((cascade_sublist _ _ _ _).trans (hversions ▸ List.Sublist.refl _))
  · intro d
    have hsame {document : KnowledgeDocument} (hdocument : document ∈ db''.cascaded.documents) (heq : document.id = d) :
        versionsOf db''.cascaded d = versionsOf db d := by
      rw [← heq, versionsOf, versionsOf, ← hversions]
      exact filter_cascade hdocument
    refine ⟨fun document hdocument _ => hdocuments.mem (hstay hdocument), fun document hdocument heq => hsame hdocument heq,
      fun document hdocument heq version hmem => ?_⟩
    have hthere : version ∈ db''.cascaded.versions := by
      rw [← hsame hdocument heq] at hmem
      exact List.mem_of_mem_filter hmem
    rw [chunksOf, chunksOf, ← hchunks]
    exact filter_cascade hthere

theorem deleteDocument_change (h : Tables runtime db) (hdelete : db.deleteDocument d = some db') :
    Change runtime db db' ∧ (∀ d', Keeps db db' d') ∧ ∀ document ∈ db'.documents, document.id ≠ d := by
  obtain ⟨document, -, rfl⟩ := Option.map_eq_some_iff.mp hdelete
  obtain ⟨hchange, hkeeps, hstay⟩ := cascaded_change
    { db with documents := db.documents.filter fun document => document.id ≠ d } h rfl (List.Sublist.refl _)
    List.filter_sublist rfl rfl
  refine ⟨hchange, hkeeps, fun document hdocument => ?_⟩
  exact of_decide_eq_true (List.mem_filter.mp (hstay document hdocument)).2

theorem deleteKnowledgeBase_change {id : JsString} (h : Tables runtime db) (hdelete : db.deleteKnowledgeBase id = some db') :
    Change runtime db db' ∧ (∀ d, Keeps db db' d) ∧ ∀ base ∈ db'.knowledgeBases, base.id ≠ id := by
  obtain ⟨base, -, rfl⟩ := Option.map_eq_some_iff.mp hdelete
  obtain ⟨hchange, hkeeps, -⟩ := cascaded_change
    { db with knowledgeBases := db.knowledgeBases.filter fun base => base.id ≠ id } h rfl List.filter_sublist
    (List.Sublist.refl _) rfl rfl
  exact ⟨hchange, hkeeps, fun base hbase => of_decide_eq_true (List.mem_filter.mp hbase).2⟩

end ModelForge.KnowledgeChanges
