import ModelForge.DiversifiedChunks
import ModelForge.RelatedRows
import ModelForge.RunInvariant
import ModelForge.SplitWords

set_option autoImplicit false

/-!
# The store of knowledge

Customers have knowledge bases, a base has documents, a document has versions and a
version has chunks. Documents are ingested in steps, while others ingest, delete and
retrieve. A task that makes no further step has crashed.
-/
namespace ModelForge.KnowledgeStore
open DiversifiedChunks (Unicode tokenize diversifyChunks)
open EventStream (JsString js codePoints isHigh isLow)
open KnowledgeChunks (KnowledgeChunk Outcome prepareKnowledgeChunks)
open RelatedRows (find update cascade)
open ReservationCover (isWhiteSpace trim Mode passageCharBudget)

/-! ## Tables -/

structure KnowledgeBase where
  id : JsString
  customerId : JsString
  name : JsString
deriving DecidableEq

inductive IngestionStatus where
  | PENDING
  | RUNNING
  | SUCCEEDED
  | FAILED
deriving DecidableEq

structure KnowledgeDocument where
  id : JsString
  knowledgeBaseId : JsString
  title : JsString
  status : IngestionStatus
deriving DecidableEq

structure DocumentVersion where
  id : JsString
  documentId : JsString
  version : ℕ
deriving DecidableEq

structure ChunkRow where
  id : JsString
  versionId : JsString
  ordinal : ℕ
  content : JsString
  tokenCount : ℕ
  embedding : List ℕ
deriving DecidableEq

/-- The tables, and the number of ids that have been given out. -/
structure Db where
  next : ℕ
  knowledgeBases : List KnowledgeBase
  documents : List KnowledgeDocument
  versions : List DocumentVersion
  chunks : List ChunkRow
deriving DecidableEq

/-- What the code gets from elsewhere: ids that are all different, the tables of
Unicode, the score of a chunk (query, content and embedding) in floating point, and the
patterns of questions about the base itself. -/
structure Runtime where
  cuid : ℕ → JsString
  cuid_injective : Function.Injective cuid
  unicode : Unicode
  score : JsString → JsString → List ℕ → ℚ
  isKnowledgeCatalogQuery : JsString → Bool

variable (runtime : Runtime)

namespace Db

/-- A name is given once for each customer. -/
def createKnowledgeBase (db : Db) (customerId name : JsString) : Option Db :=
  if db.knowledgeBases.any fun base => base.customerId = customerId ∧ base.name = name then none
  else some { db with
    next := db.next + 1
    knowledgeBases := db.knowledgeBases ++ [⟨runtime.cuid db.next, customerId, name⟩] }

def createDocument (db : Db) (knowledgeBaseId title : JsString) : Option Db :=
  (find KnowledgeBase.id db.knowledgeBases knowledgeBaseId).map fun _ => { db with
    next := db.next + 1
    documents := db.documents ++ [⟨runtime.cuid db.next, knowledgeBaseId, title, .RUNNING⟩] }

def createVersion (db : Db) (documentId : JsString) : Option Db :=
  (find KnowledgeDocument.id db.documents documentId).map fun _ => { db with
    next := db.next + 1
    versions := db.versions ++ [⟨runtime.cuid db.next, documentId, 1⟩] }

def rowOf (next : ℕ) (versionId : JsString) (i : ℕ) (chunk : KnowledgeChunk) : ChunkRow :=
  ⟨runtime.cuid (next + i), versionId, chunk.ordinal, chunk.content, chunk.tokenCount, chunk.embedding⟩

/-- `createMany`; the ordinals of a version are different. -/
def createChunks (db : Db) (versionId : JsString) (chunks : List KnowledgeChunk) : Option Db :=
  (find DocumentVersion.id db.versions versionId).map fun _ => { db with
    next := db.next + chunks.length
    chunks := db.chunks ++ chunks.mapIdx (rowOf runtime db.next versionId) }

def succeed (db : Db) (documentId : JsString) : Option Db :=
  (find KnowledgeDocument.id db.documents documentId).map fun _ => { db with
    documents := update KnowledgeDocument.id documentId ({ · with status := .SUCCEEDED }) db.documents }

/-- Every relation of the schema is `onDelete: Cascade`. -/
def cascaded (db : Db) : Db :=
  let documents := cascade KnowledgeDocument.knowledgeBaseId db.documents KnowledgeBase.id db.knowledgeBases
  let versions := cascade DocumentVersion.documentId db.versions KnowledgeDocument.id documents
  { db with
    documents := documents
    versions := versions
    chunks := cascade ChunkRow.versionId db.chunks DocumentVersion.id versions }

def deleteDocument (db : Db) (documentId : JsString) : Option Db :=
  (find KnowledgeDocument.id db.documents documentId).map fun _ =>
    { db with documents := db.documents.filter fun document => document.id ≠ documentId }.cascaded

def deleteKnowledgeBase (db : Db) (knowledgeBaseId : JsString) : Option Db :=
  (find KnowledgeBase.id db.knowledgeBases knowledgeBaseId).map fun _ =>
    { db with knowledgeBases := db.knowledgeBases.filter fun base => base.id ≠ knowledgeBaseId }.cascaded

end Db

/-! ## Retrieval -/

/-- What is selected of a chunk. -/
structure Passage where
  chunkId : JsString
  knowledgeBaseId : JsString
  knowledgeBaseName : JsString
  documentId : JsString
  documentTitle : JsString
  ordinal : ℕ
  content : JsString
  embedding : List ℕ
deriving DecidableEq

structure RetrievalHit where
  chunkId : JsString
  knowledgeBaseId : JsString
  knowledgeBaseName : JsString
  documentId : JsString
  documentTitle : JsString
  ordinal : ℕ
  content : JsString
  score : ℚ
deriving DecidableEq

structure RetrievalResult where
  knowledgeBaseIds : List JsString
  topK : ℤ
  query : JsString
  hits : List RetrievalHit
  mode : Mode
deriving DecidableEq

structure RetrievalRequest where
  customerId : JsString
  query : JsString
  knowledgeBaseIds : List JsString
  topK : Option ℤ
  contextLength : Option ℤ
deriving DecidableEq

/-- `[...new Set(ids.map((id) => id.trim()).filter(Boolean))]` -/
def requestedIds (request : RetrievalRequest) : List JsString :=
  ((request.knowledgeBaseIds.map trim).filter (· ≠ [])).eraseDups

/-- The bases of the customer among those requested. -/
def ownBases (db : Db) (request : RetrievalRequest) : List KnowledgeBase :=
  db.knowledgeBases.filter fun base => base.customerId = request.customerId ∧ (requestedIds request).contains base.id

def passageOf (db : Db) (requested : List JsString) (chunk : ChunkRow) : Option Passage := do
  let version ← find DocumentVersion.id db.versions chunk.versionId
  let document ← find KnowledgeDocument.id db.documents version.documentId
  let base ← find KnowledgeBase.id db.knowledgeBases document.knowledgeBaseId
  if document.status = .SUCCEEDED ∧ requested.contains document.knowledgeBaseId then
    some ⟨chunk.id, base.id, base.name, document.id, document.title, chunk.ordinal, chunk.content, chunk.embedding⟩
  else none

/-- The rows that the query for chunks finds, in some order. -/
def passages (db : Db) (requested : List JsString) : List Passage := db.chunks.filterMap (passageOf db requested)

def scored (query : JsString) (passage : Passage) : RetrievalHit where
  chunkId := passage.chunkId
  knowledgeBaseId := passage.knowledgeBaseId
  knowledgeBaseName := passage.knowledgeBaseName
  documentId := passage.documentId
  documentTitle := passage.documentTitle
  ordinal := passage.ordinal
  content := passage.content
  score := runtime.score query passage.content passage.embedding

/-- `(left, right) => right.score - left.score` -/
abbrev Outranks (left right : RetrievalHit) : Prop := right.score ≤ left.score

def rankChunks (query : JsString) (chunks : List Passage) (topK : ℤ) (minScore : ℚ) : List RetrievalHit :=
  let ranked := ((chunks.map (scored runtime query)).filter fun hit => minScore ≤ hit.score).insertionSort Outranks
  diversifyChunks runtime.unicode RetrievalHit.content (max 1 (min topK 12)).toNat ranked

def fitFrom (budget : ℤ) : List RetrievalHit → List RetrievalHit → ℕ → List RetrievalHit
  | [], fitted, _ => fitted
  | hit :: hits, fitted, used =>
    if fitted.length > 0 ∧ ((used + hit.content.length : ℕ) : ℤ) > budget then fitted
    else fitFrom budget hits (fitted ++ [hit]) (used + hit.content.length)

def fitHitsToBudget (hits : List RetrievalHit) (contextLength : ℤ) : List RetrievalHit :=
  let fitted := fitFrom (passageCharBudget contextLength) hits [] 0
  if fitted.length > 0 then fitted else hits.take 1

def clampedTopK (request : RetrievalRequest) : ℤ := max 1 (min (request.topK.getD 4) 8)

/-- What is done with the rows; at most 4000 of them are read. -/
def passageResult (request : RetrievalRequest) (rows : List Passage) : RetrievalResult :=
  let hits := rankChunks runtime request.query (rows.take 4000) (clampedTopK request) (12 / 100)
  { knowledgeBaseIds := requestedIds request
    topK := clampedTopK request
    query := request.query
    hits := if request.contextLength.getD 0 ≠ 0 then fitHitsToBudget hits (request.contextLength.getD 0) else hits
    mode := .passages }

/-- `content.replace(/\s+/g, " ").slice(0, 280).trim()` -/
def excerpt (content : JsString) : JsString :=
  trim (((SplitWords.blanks isWhiteSpace).replaceAll (js " ") content).take 280)

/-- The first chunk of the latest version. -/
def opening (db : Db) (document : KnowledgeDocument) : Option ChunkRow := do
  let versions := db.versions.filter fun version => version.documentId = document.id
  let version ← (versions.insertionSort fun a b => b.version ≤ a.version).head?
  let chunks := db.chunks.filter fun chunk => chunk.versionId = version.id
  (chunks.insertionSort fun a b => a.ordinal ≤ b.ordinal).head?

def catalogEntry (db : Db) (base : KnowledgeBase) (index : ℕ) (document : KnowledgeDocument) : RetrievalHit where
  chunkId := ((opening db document).map ChunkRow.id).getD (js "catalog:" ++ document.id)
  knowledgeBaseId := base.id
  knowledgeBaseName := base.name
  documentId := document.id
  documentTitle := document.title
  ordinal := index
  content := js "This document is in knowledge base \"" ++ base.name ++ js "\".\nTitle: " ++ document.title ++ js "\n" ++
    (let opening := ((opening db document).map fun chunk => excerpt chunk.content).getD []
      if opening = [] then js "No preview is available." else js "Opening excerpt: " ++ opening)
  score := 1

def emptyEntry (base : KnowledgeBase) : RetrievalHit where
  chunkId := js "catalog:" ++ base.id
  knowledgeBaseId := base.id
  knowledgeBaseName := base.name
  documentId := base.id
  documentTitle := base.name
  ordinal := 0
  content := js "Knowledge base \"" ++ base.name ++ js "\" has no ingested documents yet."
  score := 1

def catalogOf (db : Db) (base : KnowledgeBase) : List RetrievalHit :=
  let documents := db.documents.filter fun document => document.knowledgeBaseId = base.id ∧ document.status = .SUCCEEDED
  if documents = [] then [emptyEntry base] else documents.mapIdx (catalogEntry db base)

def catalogResult (db : Db) (request : RetrievalRequest) : RetrievalResult :=
  let hits := (ownBases db request).flatMap (catalogOf db)
  { knowledgeBaseIds := requestedIds request
    topK := max hits.length 1
    query := request.query
    hits := hits
    mode := .catalog }

/-! ## Steps -/

structure SessionUser where
  id : JsString
  role : JsString
deriving DecidableEq

/-- `assertOwnership` does not throw. -/
def Owns (customerId : JsString) (user : SessionUser) : Prop := user.role = js "ADMIN" ∨ customerId = user.id

instance (customerId : JsString) (user : SessionUser) : Decidable (Owns customerId user) :=
  inferInstanceAs (Decidable (_ ∨ _))

/-- A text that is to be ingested; the scripts of the gateway have no session. -/
structure Submission where
  user : Option SessionUser
  knowledgeBaseId : JsString
  title : JsString
  content : JsString
deriving DecidableEq

inductive Task where
  | createDocument (submission : Submission)
  | createVersion (documentId content : JsString)
  | createChunks (documentId versionId : JsString) (chunks : List KnowledgeChunk)
  | succeed (documentId : JsString)
  | deleteDocument (documentId : JsString)
  | deleteKnowledgeBase (knowledgeBaseId : JsString)
  | retrieve (request : RetrievalRequest)
  | answered (request : RetrievalRequest) (result : RetrievalResult)
  | ended
deriving DecidableEq

/-- The tables and the tasks; `origins` remembers from what a document was made. -/
structure System where
  db : Db
  tasks : List Task
  origins : List (JsString × Submission)

def initial : System := ⟨⟨0, [], [], [], []⟩, [], []⟩

def byteLength (content : JsString) : ℕ :=
  ((codePoints content).map fun point =>
    match point with
    | [u] => if u < 0x80 then 1 else if u < 0x800 then 2 else 3
    | _ => 4).sum

/-- The checks of `ingestPlainText`, on the trimmed text. -/
def Acceptable (content : JsString) : Prop := content ≠ [] ∧ byteLength content ≤ 512000

instance (content : JsString) : Decidable (Acceptable content) := inferInstanceAs (Decidable (_ ∧ _))

def titleOf (title : JsString) : JsString := if trim title = [] then js "Untitled" else trim title

/-- `prepareKnowledgeChunks(content, 800)` -/
def prepared (content : JsString) : Outcome KnowledgeChunk :=
  prepareKnowledgeChunks (tokenize runtime.unicode) (content.length + 1) content 800

inductive Event where
  | createKnowledgeBaseAction (user : SessionUser) (name : JsString)
  | ingestKnowledgeDocumentAction (user : SessionUser) (knowledgeBaseId title content : JsString)
  | ingestTextDocument (knowledgeBaseId title content : JsString)
  | deleteKnowledgeDocumentAction (user : SessionUser) (documentId : JsString)
  | deleteKnowledgeBaseAction (user : SessionUser) (knowledgeBaseId : JsString)
  | retrieveCustomerKnowledge (request : RetrievalRequest)
  | settle (i : ℕ)
  | answer (i : ℕ) (rows : List Passage)

namespace System

def spawn (s : System) (task : Task) : System := { s with tasks := s.tasks ++ [task] }

def become (s : System) (i : ℕ) (task : Task) : System := { s with tasks := s.tasks.modify i fun _ => task }

/-- The next awaited call of a task; where it throws, the task is over. -/
def settle (s : System) (i : ℕ) : Task → Option System
  | .createDocument submission =>
    match s.db.createDocument runtime submission.knowledgeBaseId submission.title with
    | some db =>
      let documentId := runtime.cuid s.db.next
      some { (s.become i (.createVersion documentId submission.content)) with
        db := db
        origins := s.origins ++ [(documentId, submission)] }
    | none => some (s.become i .ended)
  | .createVersion documentId content =>
    match s.db.createVersion runtime documentId, prepared runtime content with
    | some db, some (.ok chunks) =>
      let next := if chunks.length > 0 then .createChunks documentId (runtime.cuid s.db.next) chunks
        else .succeed documentId
      some { (s.become i next) with db := db }
    | some db, _ => some { (s.become i .ended) with db := db }
    | none, _ => some (s.become i .ended)
  | .createChunks documentId versionId chunks =>
    match s.db.createChunks runtime versionId chunks with
    | some db => some { (s.become i (.succeed documentId)) with db := db }
    | none => some (s.become i .ended)
  | .succeed documentId => some { (s.become i .ended) with db := (s.db.succeed documentId).getD s.db }
  | .deleteDocument documentId => some { (s.become i .ended) with db := (s.db.deleteDocument documentId).getD s.db }
  | .deleteKnowledgeBase knowledgeBaseId =>
    some { (s.become i .ended) with db := (s.db.deleteKnowledgeBase knowledgeBaseId).getD s.db }
  | .retrieve _ => none
  | .answered _ _ => none
  | .ended => none

/-- The first query of `retrieveCustomerKnowledge`; it throws unless all bases are the customer's. -/
def retrieve (s : System) (request : RetrievalRequest) : System :=
  let requested := requestedIds request
  if requested = [] then s.spawn (.answered request ⟨[], request.topK.getD 4, request.query, [], .passages⟩)
  else if (ownBases s.db request).length ≠ requested.length then s
  else if runtime.isKnowledgeCatalogQuery request.query then s.spawn (.answered request (catalogResult s.db request))
  else s.spawn (.retrieve request)

end System

/-- A check that throws leaves everything as it is. -/
def step (s : System) : Event → Option System
  | .createKnowledgeBaseAction user name =>
    if trim name = [] then some s
    else some { s with db := (s.db.createKnowledgeBase runtime user.id (trim name)).getD s.db }
  | .ingestKnowledgeDocumentAction user knowledgeBaseId title content =>
    match find KnowledgeBase.id s.db.knowledgeBases knowledgeBaseId with
    | some base =>
      if Owns base.customerId user ∧ Acceptable (trim content) then
        some (s.spawn (.createDocument ⟨some user, knowledgeBaseId, titleOf title, trim content⟩))
      else some s
    | none => some s
  | .ingestTextDocument knowledgeBaseId title content =>
    some (s.spawn (.createDocument ⟨none, knowledgeBaseId, title, content⟩))
  | .deleteKnowledgeDocumentAction user documentId =>
    match find KnowledgeDocument.id s.db.documents documentId with
    | some document =>
      match find KnowledgeBase.id s.db.knowledgeBases document.knowledgeBaseId with
      | some base => if Owns base.customerId user then some (s.spawn (.deleteDocument documentId)) else some s
      | none => some s
    | none => some s
  | .deleteKnowledgeBaseAction user knowledgeBaseId =>
    match find KnowledgeBase.id s.db.knowledgeBases knowledgeBaseId with
    | some base => if Owns base.customerId user then some (s.spawn (.deleteKnowledgeBase knowledgeBaseId)) else some s
    | none => some s
  | .retrieveCustomerKnowledge request => some (s.retrieve runtime request)
  | .settle i => s.tasks[i]?.bind (s.settle runtime i)
  | .answer i rows =>
    match s.tasks[i]? with
    | some (.retrieve request) =>
      if rows.Perm (passages s.db (requestedIds request)) then
        some (s.become i (.answered request (passageResult runtime request rows)))
      else none
    | _ => none

/-! ## The passages that are found -/

variable {runtime} {query : JsString} {chunks : List Passage} {hit : RetrievalHit} {hits : List RetrievalHit}

/-- The ranked hits: each is a chunk with enough score, they come in the order of their scores, none is
like an earlier one, and a chunk is left out for its score, for a hit that is like it, or for want of room. -/
structure Best (runtime : Runtime) (query : JsString) (chunks : List Passage) (limit : ℕ) (minScore : ℚ)
    (hits : List RetrievalHit) : Prop where
  found : ∀ hit ∈ hits, minScore ≤ hit.score ∧ ∃ chunk ∈ chunks, hit = scored runtime query chunk
  ranked : hits.Pairwise Outranks
  apart : hits.Pairwise fun earlier later =>
    ¬ DiversifiedChunks.Duplicates runtime.unicode RetrievalHit.content earlier later
  bounded : hits.length ≤ limit
  left_out : ∀ chunk ∈ chunks, scored runtime query chunk ∉ hits → (scored runtime query chunk).score < minScore ∨
    (∃ hit ∈ hits, DiversifiedChunks.Duplicates runtime.unicode RetrievalHit.content hit (scored runtime query chunk) ∧
      Outranks hit (scored runtime query chunk)) ∨
    hits.length = limit ∧ ∀ hit ∈ hits, Outranks hit (scored runtime query chunk)

theorem rankChunks_best (runtime : Runtime) (query : JsString) (chunks : List Passage) (topK : ℤ) (minScore : ℚ) :
    Best runtime query chunks (max 1 (min topK 12)).toNat minScore (rankChunks runtime query chunks topK minScore) := by
  have hlimit : 0 < (max 1 (min topK 12)).toNat := by omega
  rw [rankChunks]
  generalize hranked : ((chunks.map (scored runtime query)).filter fun hit => minScore ≤ hit.score).insertionSort
    Outranks = ranked
  have hsorted : ranked.Pairwise Outranks := hranked ▸ List.pairwise_insertionSort _ _
  have hmem (hit : RetrievalHit) : hit ∈ ranked ↔ minScore ≤ hit.score ∧ ∃ chunk ∈ chunks, scored runtime query chunk = hit := by
    rw [← hranked, (List.perm_insertionSort _ _).mem_iff, List.mem_filter, List.mem_map, decide_eq_true_eq, and_comm]
  obtain ⟨positions, h⟩ : ∃ positions, GreedySelection.Selects
      (DiversifiedChunks.Duplicates runtime.unicode RetrievalHit.content) (max 1 (min topK 12)).toNat ([] ++ ranked)
      (diversifyChunks runtime.unicode RetrievalHit.content (max 1 (min topK 12)).toNat ranked) positions :=
    DiversifiedChunks.diversifyFrom_selects (GreedySelection.selects_nil _ _) hlimit ranked
  rw [List.nil_append] at h
  refine ⟨?_, hsorted.sublist h.sublist, h.apart, h.bounded, ?_⟩
  · intro hit hhit
    obtain ⟨hscore, chunk, hchunk, heq⟩ := (hmem hit).mp (h.sublist.mem hhit)
    exact ⟨hscore, chunk, hchunk, heq.symm⟩
  · intro chunk hchunk hnot
    by_cases hscore : minScore ≤ (scored runtime query chunk).score
    · exact .inr (h.left_out_sorted hsorted ((hmem _).mpr ⟨hscore, chunk, hchunk, rfl⟩) hnot)
    · exact .inl (not_le.mp hscore)

def size (hits : List RetrievalHit) : ℕ := (hits.map fun hit => hit.content.length).sum

/-- The first hits that fit, one of them in any case. -/
structure Fits (budget : ℤ) (fitted rest : List RetrievalHit) : Prop where
  within : fitted.length ≤ 1 ∨ (size fitted : ℤ) ≤ budget
  full : ∀ next ∈ rest.head?, budget < size fitted + next.content.length
  some : fitted ++ rest ≠ [] → fitted ≠ []

theorem size_concat (hits : List RetrievalHit) (hit : RetrievalHit) :
    size (hits ++ [hit]) = size hits + hit.content.length := by
  simp [size]

theorem fitFrom_fits (budget : ℤ) (hits fitted : List RetrievalHit)
    (h : fitted.length ≤ 1 ∨ (size fitted : ℤ) ≤ budget) : ∃ taken rest, hits = taken ++ rest ∧
      fitFrom budget hits fitted (size fitted) = fitted ++ taken ∧ Fits budget (fitted ++ taken) rest := by
  induction hits generalizing fitted with
  | nil => exact ⟨[], [], rfl, by simp [fitFrom], ⟨by simpa using h, by simp, by simp⟩⟩
  | cons hit hits ih =>
    rw [fitFrom]
    by_cases hfull : fitted.length > 0 ∧ ((size fitted + hit.content.length : ℕ) : ℤ) > budget
    · rw [if_pos hfull]
      refine ⟨[], hit :: hits, rfl, by simp, ⟨by simpa using h, ?_, ?_⟩⟩
      · intro next hnext
        obtain rfl := Option.some.inj hnext
        have hsize := hfull.2
        rw [List.append_nil]
        push_cast at hsize
        exact hsize
      · intro _
        rw [List.append_nil]
        exact List.ne_nil_of_length_pos hfull.1
    · rw [if_neg hfull, ← size_concat]
      have hroom : (fitted ++ [hit]).length ≤ 1 ∨ (size (fitted ++ [hit]) : ℤ) ≤ budget := by
        rw [size_concat, List.length_append, List.length_singleton]
        omega
      obtain ⟨taken, rest, heq, hfit, hfits⟩ := ih (fitted ++ [hit]) hroom
      have happend : fitted ++ [hit] ++ taken = fitted ++ hit :: taken := by simp
      rw [happend] at hfit hfits
      exact ⟨hit :: taken, rest, by rw [heq, List.cons_append], hfit, hfits⟩

theorem fitHitsToBudget_fits (hits : List RetrievalHit) (contextLength : ℤ) : ∃ rest,
    hits = fitHitsToBudget hits contextLength ++ rest ∧
      Fits (passageCharBudget contextLength) (fitHitsToBudget hits contextLength) rest := by
  obtain ⟨taken, rest, heq, hfit, hfits⟩ := fitFrom_fits (passageCharBudget contextLength) hits [] (.inl (by simp))
  have hsize : size [] = 0 := rfl
  rw [hsize, List.nil_append] at hfit
  rw [List.nil_append] at hfits
  have hsame : fitHitsToBudget hits contextLength = taken := by
    rw [fitHitsToBudget, hfit]
    split
    · rfl
    next hnone =>
      have hnil : taken = [] := List.eq_nil_of_length_eq_zero (Nat.eq_zero_of_not_pos hnone)
      have hrest : rest = [] := by
        by_contra hrest
        exact hfits.some (by simpa [hnil] using hrest) hnil
      rw [heq, hnil, hrest]
      rfl
  rw [hsame]
  exact ⟨rest, heq, hfits⟩

/-- What the prompt has of a hit. -/
def brief (hit : RetrievalHit) : ReservationCover.RetrievalHit := ⟨hit.documentTitle, hit.content⟩

theorem fitFrom_brief (budget : ℤ) (hits fitted : List RetrievalHit) (used : ℕ) :
    (fitFrom budget hits fitted used).map brief =
      ReservationCover.fitFrom budget (hits.map brief) (fitted.map brief) used := by
  induction hits generalizing fitted used with
  | nil => rfl
  | cons hit hits ih =>
    rw [fitFrom, List.map_cons, ReservationCover.fitFrom, List.length_map, apply_ite (List.map brief), ih,
      List.map_append]
    rfl

/-- The hits that a prompt is charged for are those that are retrieved. -/
theorem fitHitsToBudget_brief (hits : List RetrievalHit) (contextLength : ℤ) :
    (fitHitsToBudget hits contextLength).map brief =
      ReservationCover.fitHitsToBudget (hits.map brief) contextLength := by
  have hfit := fitFrom_brief (passageCharBudget contextLength) hits [] 0
  rw [List.map_nil] at hfit
  rw [fitHitsToBudget, ReservationCover.fitHitsToBudget, ← hfit, List.length_map, apply_ite (List.map brief), List.map_take]

/-- The hits of a request are the first of the best passages among the rows that are
read, as many as fit; they are at most eight. -/
theorem hits_are_best (runtime : Runtime) (request : RetrievalRequest) (rows : List Passage) : ∃ rest,
    Best runtime request.query (rows.take 4000) (clampedTopK request).toNat (12 / 100)
        ((passageResult runtime request rows).hits ++ rest) ∧
      (passageResult runtime request rows).hits.length ≤ 8 ∧
      (request.contextLength.getD 0 = 0 → rest = []) ∧
      (request.contextLength.getD 0 ≠ 0 →
        Fits (passageCharBudget (request.contextLength.getD 0)) (passageResult runtime request rows).hits rest) := by
  have hlimit : max 1 (min (clampedTopK request) 12) = clampedTopK request := by
    unfold clampedTopK
    omega
  have height : (clampedTopK request).toNat ≤ 8 := by
    unfold clampedTopK
    omega
  have hbest := rankChunks_best runtime request.query (rows.take 4000) (clampedTopK request) (12 / 100)
  rw [hlimit] at hbest
  rw [passageResult]
  dsimp only
  by_cases hcontext : request.contextLength.getD 0 = 0
  · rw [if_neg (not_not.mpr hcontext)]
    exact ⟨[], by rwa [List.append_nil], hbest.bounded.trans height, fun _ => rfl, fun hne => absurd hcontext hne⟩
  · rw [if_pos hcontext]
    obtain ⟨rest, heq, hfits⟩ := fitHitsToBudget_fits
      (rankChunks runtime request.query (rows.take 4000) (clampedTopK request) (12 / 100)) (request.contextLength.getD 0)
    refine ⟨rest, heq ▸ hbest, ?_, fun hzero => absurd hzero hcontext, fun _ => hfits⟩
    have hbounded := hbest.bounded
    rw [heq, List.length_append] at hbounded
    omega

end ModelForge.KnowledgeStore
