import ModelForge.EventStream

set_option autoImplicit false

/-!
# A chat reply arrives as it was streamed

The text of an event has no line break of its own and cannot be taken for the
end of the stream, so the client reads back the events that the gateway wrote,
wherever the bytes are cut.
-/
namespace ModelForge.StreamRoundTrip
open EventStream
open JsonText (JsNumber escapeChar hexDigit quotationMark backslash isNumeric escapedChars)
open LlamaPool (trim isWhiteSpace)
open StreamDecoding (Reader utf8)

/-! ## The names of members -/

theorem codeUnits_lt {c : Char} {u : ℕ} (h : u ∈ CanonicalJson.codeUnits c) : u < 65536 := by
  have hrange := CanonicalJson.char_range c
  unfold CanonicalJson.codeUnits at h
  split at h
  · simp only [List.mem_singleton] at h
    omega
  · simp only [List.mem_cons, List.not_mem_nil, or_false] at h
    omega

theorem js_injective : Function.Injective js := by
  intro a b h
  apply CanonicalJson.utf16_injective
  have hlt : ∀ s : String, ∀ u ∈ CanonicalJson.utf16 s, u < 65536 := by
    intro s u hu
    obtain ⟨c, -, hc⟩ := List.mem_flatMap.mp hu
    exact codeUnits_lt hc
  have hback : ∀ s : String, (js s).map UInt16.toNat = CanonicalJson.utf16 s := by
    intro s
    rw [js, List.map_map]
    calc
      _ = (CanonicalJson.utf16 s).map id := by
        apply List.map_congr_left
        intro u hu
        exact UInt16.toNat_ofNat_of_lt (hlt s u hu)
      _ = CanonicalJson.utf16 s := List.map_id _
  rw [← hback, h, hback]

@[simp] theorem js_inj {a b : String} : js a = js b ↔ a = b := js_injective.eq_iff

@[simp] theorem js_beq (a b : String) : (js a == js b) = decide (a = b) := by
  rw [Bool.eq_iff_iff, beq_iff_eq, js_inj, decide_eq_true_eq]

/-! ## The text of a value -/

/-- No control character is written as it is. -/
def Printable (text : List Char) : Prop := ∀ c ∈ text, 32 ≤ c.toNat

theorem Printable.append {xs ys : List Char} (hx : Printable xs) (hy : Printable ys) :
    Printable (xs ++ ys) := by
  intro c hc
  cases List.mem_append.mp hc with
  | inl h => exact hx c h
  | inr h => exact hy c h

theorem Printable.cons {c : Char} {xs : List Char} (hc : 32 ≤ c.toNat) (hx : Printable xs) :
    Printable (c :: xs) :=
  List.forall_mem_cons.mpr ⟨hc, hx⟩

theorem printable_nil : Printable [] := fun _ h => (List.not_mem_nil h).elim

theorem printable_hexDigit {n : ℕ} (h : n < 16) : 32 ≤ (hexDigit n).toNat := by
  interval_cases n <;> decide

set_option maxRecDepth 3000 in
theorem escaped_printable : (escapedChars.all fun c => (escapeChar c).all fun d => 32 ≤ d.toNat) = true := by
  decide +kernel

theorem printable_escapeChar (c : Char) : Printable (escapeChar c) := by
  by_cases hc : c ∈ escapedChars
  · intro d hd
    exact of_decide_eq_true (List.all_eq_true.mp (List.all_eq_true.mp escaped_printable c hc) d hd)
  · rw [JsonText.escapeChar_of_notMem hc]
    apply Printable.cons _ printable_nil
    by_contra hlow
    apply hc
    refine List.mem_cons_of_mem _ (List.mem_cons_of_mem _ (List.mem_map.mpr ⟨c.toNat, ?_, Char.ofNat_toNat c⟩))
    exact List.mem_range.mpr (by omega)

theorem printable_escapeUnit (u : UInt16) : Printable (escapeUnit u) := by
  have hu : u.toNat < 65536 := u.toNat_lt
  unfold escapeUnit
  split
  · refine Printable.cons (by decide) (Printable.cons (by decide) ?_)
    refine Printable.cons (printable_hexDigit (by omega)) (Printable.cons (printable_hexDigit (by omega)) ?_)
    exact Printable.cons (printable_hexDigit (by omega))
      (Printable.cons (printable_hexDigit (by omega)) printable_nil)
  · exact printable_escapeChar _

theorem toNat_pairChar {high low : UInt16} (hhigh : isHigh high = true) (hlow : isLow low = true) :
    (pairChar high low).toNat = 0x10000 + (high.toNat - 0xD800) * 0x400 + (low.toNat - 0xDC00) := by
  simp only [isHigh, isLow, Bool.and_eq_true, decide_eq_true_eq] at hhigh hlow
  set code := 0x10000 + (high.toNat - 0xD800) * 0x400 + (low.toNat - 0xDC00) with hcode
  have hvalid : code.isValidChar := .inr ⟨by omega, by omega⟩
  rw [pairChar, ← hcode, Char.ofNat, dif_pos hvalid]
  rfl

theorem printable_pairChar {high low : UInt16} (hhigh : isHigh high = true) (hlow : isLow low = true) :
    32 ≤ (pairChar high low).toNat := by
  rw [toNat_pairChar hhigh hlow]
  omega

theorem printable_escapeUnits (s : JsString) : Printable (escapeUnits s) := by
  induction s using escapeUnits.induct with
  | case1 => exact printable_nil
  | case2 u => exact printable_escapeUnit u
  | case3 u v rest hpair ih =>
    rw [escapeUnits, if_pos hpair]
    rw [Bool.and_eq_true] at hpair
    exact ih.cons (printable_pairChar hpair.1 hpair.2)
  | case4 u v rest hpair ih =>
    rw [escapeUnits, if_neg hpair]
    exact (printable_escapeUnit u).append ih

theorem printable_quote (s : JsString) : Printable (quote s) := by
  apply Printable.cons (by decide)
  exact (printable_escapeUnits s).append (printable_nil.cons (by decide))

theorem printable_numeric {c : Char} (h : isNumeric c = true) : 32 ≤ c.toNat := by
  by_cases hdigit : c.isDigit = true
  · have hzero : '0'.toNat = 48 := rfl
    have hlow := (Char.isDigit_iff_toNat.mp hdigit).1
    omega
  · have hsign : c = '-' ∨ c = '+' ∨ c = '.' ∨ c = 'e' := by
      simp only [isNumeric, Bool.or_eq_true, decide_eq_true_eq] at h
      tauto
    rcases hsign with rfl | rfl | rfl | rfl <;> decide

theorem printable_intercalate {texts : List (List Char)} (h : ∀ text ∈ texts, Printable text) :
    Printable ([','].intercalate texts) := by
  induction texts with
  | nil => exact printable_nil
  | cons text rest ih =>
    obtain ⟨htext, hrest⟩ := List.forall_mem_cons.mp h
    by_cases hnil : rest = []
    · rw [hnil, List.intercalate_singleton]
      exact htext
    · rw [List.intercalate_cons_of_ne_nil hnil]
      exact (htext.append (by simp [Printable])).append (ih hrest)

mutual

theorem printable_stringify : ∀ v : Value, Printable (stringify v)
  | .null => by
    rw [stringify]
    simp [Printable]
  | .bool b => by
    rw [stringify]
    cases b <;> simp [Printable]
  | .number n => by
    rw [stringify]
    exact fun c hc => printable_numeric (n.numeric c hc)
  | .string s => by
    rw [stringify]
    exact printable_quote s
  | .array items => by
    rw [stringify]
    apply Printable.cons (by decide)
    exact (printable_intercalate (printable_stringifyItems items)).append (printable_nil.cons (by decide))
  | .object members => by
    rw [stringify]
    apply Printable.cons (by decide)
    exact (printable_intercalate (printable_stringifyMembers members)).append
      (printable_nil.cons (by decide))

theorem printable_stringifyItems : ∀ items : List Value, ∀ text ∈ stringifyItems items, Printable text
  | [] => by simp [stringifyItems]
  | v :: rest => by
    rw [stringifyItems]
    exact List.forall_mem_cons.mpr ⟨printable_stringify v, printable_stringifyItems rest⟩

theorem printable_stringifyMembers : ∀ members : List (JsString × Value),
    ∀ text ∈ stringifyMembers members, Printable text
  | [] => by simp [stringifyMembers]
  | (k, v) :: rest => by
    rw [stringifyMembers]
    refine List.forall_mem_cons.mpr ⟨?_, printable_stringifyMembers rest⟩
    exact (printable_quote k).append ((printable_stringify v).cons (by decide))

end

/-! ## Lines -/

theorem Printable.newline_notMem {text : List Char} (h : Printable text) : '\n' ∉ text := by
  intro hmem
  have hlow := h '\n' hmem
  simp at hlow

theorem trim_framed {a b : Char} (ha : isWhiteSpace a = false) (hb : isWhiteSpace b = false)
    (inner : List Char) : trim (a :: (inner ++ [b])) = a :: (inner ++ [b]) := by
  have hfront : (a :: (inner ++ [b])).dropWhile isWhiteSpace = a :: (inner ++ [b]) :=
    List.dropWhile_cons_of_neg (by simp [ha])
  have hreverse : (a :: (inner ++ [b])).reverse = b :: (inner.reverse ++ [a]) := by simp
  have hback : (b :: (inner.reverse ++ [a])).dropWhile isWhiteSpace = b :: (inner.reverse ++ [a]) :=
    List.dropWhile_cons_of_neg (by simp [hb])
  rw [trim, hfront, hreverse, hback, ← hreverse, List.reverse_reverse]

theorem trim_cons_space {c : Char} (h : isWhiteSpace c = true) (text : List Char) :
    trim (c :: text) = trim text := by
  rw [trim, trim, List.dropWhile_cons_of_pos h]

variable {parse : List Char → Option Value}

/-- A line of an event's data, framed by characters that trimming leaves. -/
theorem onLine_data {t : Turn} (ht : t.over = false) {a b : Char} (ha : isWhiteSpace a = false)
    (hb : isWhiteSpace b = false) (inner : List Char) :
    onLine parse t ("data: ".toList ++ (a :: (inner ++ [b]))) = onData parse t (a :: (inner ++ [b])) := by
  have hd : isWhiteSpace 'd' = false := by decide
  have hspace : isWhiteSpace ' ' = true := by decide
  have hline : "data: ".toList ++ (a :: (inner ++ [b])) =
      'd' :: (("ata: ".toList ++ a :: inner) ++ [b]) := by simp
  have htrim : trim ("data: ".toList ++ (a :: (inner ++ [b]))) = "data: ".toList ++ (a :: (inner ++ [b])) := by
    rw [hline]
    exact trim_framed hd hb _
  have hprefix : "data:".toList.isPrefixOf ("data: ".toList ++ (a :: (inner ++ [b]))) = true := by
    simp
  have hdrop : ("data: ".toList ++ (a :: (inner ++ [b]))).drop 5 = ' ' :: a :: (inner ++ [b]) := by simp
  simp only [onLine, ht, htrim, hprefix, hdrop, if_true, trim_cons_space hspace, trim_framed ha hb,
    Bool.false_eq_true, if_false]

theorem onLine_nil (t : Turn) : onLine parse t [] = t := by
  have hprefix : ¬ "data:".toList.isPrefixOf (trim []) = true := by decide
  rw [onLine]
  split
  · rfl
  · exact if_neg hprefix

theorem onLine_over {t : Turn} (h : t.over = true) (line : List Char) : onLine parse t line = t := by
  rw [onLine, if_pos h]

theorem foldl_onLine_over {t : Turn} (h : t.over = true) (lines : List (List Char)) :
    lines.foldl (onLine parse) t = t := by
  induction lines with
  | nil => rfl
  | cons line rest ih => rw [List.foldl_cons, onLine_over h, ih]

/-! ## The loop -/

theorem feed_over {r : Reader Turn Char} (h : r.state.over = true) (piece : List Char) :
    (r.feed '\n' (onLine parse) piece).state = r.state := by
  unfold Reader.feed
  exact foldl_onLine_over h _

theorem foldl_feed_over {r : Reader Turn Char} (h : r.state.over = true) (pieces : List (List Char)) :
    (pieces.foldl (Reader.feed '\n' (onLine parse)) r).state = r.state := by
  induction pieces generalizing r with
  | nil => rfl
  | cons piece rest ih =>
    have hstate : (r.feed '\n' (onLine parse) piece).state = r.state := feed_over h piece
    rw [List.foldl_cons, ih (by rw [hstate]; exact h), hstate]

theorem foldl_onPiece_over {r : Reader Turn Char} (h : r.state.over = true) (pieces : List (List Char)) :
    pieces.foldl (onPiece parse) r = r := by
  induction pieces with
  | nil => rfl
  | cons piece rest ih =>
    have hpiece : onPiece parse r piece = r := if_pos h
    rw [List.foldl_cons, hpiece, ih]

/-- Once the loop is left it makes no difference that the rest is not read. -/
theorem foldl_onPiece (r : Reader Turn Char) (pieces : List (List Char)) :
    (pieces.foldl (onPiece parse) r).state = (pieces.foldl (Reader.feed '\n' (onLine parse)) r).state := by
  induction pieces generalizing r with
  | nil => rfl
  | cons piece rest ih =>
    by_cases h : r.state.over = true
    · rw [foldl_onPiece_over h, foldl_feed_over h]
    · have hpiece : onPiece parse r piece = r.feed '\n' (onLine parse) piece := if_neg h
      rw [List.foldl_cons, List.foldl_cons, hpiece, ih]

theorem receive_eq (pieces : List (List Char)) :
    receive parse pieces = (Reader.feed '\n' (onLine parse) ⟨[], .start⟩ pieces.flatten).state := by
  rw [receive, foldl_onPiece, Reader.foldl_feed_start]

/-- An event of the gateway, which `parse` reads back. -/
structure Readable (parse : List Char → Option Value) (v : Value) : Prop where
  isObject : ∃ members, v = .object members
  parsed : parse (stringify v) = some v
  noError : errorMessage v = []

theorem Readable.framed {v : Value} (h : Readable parse v) :
    ∃ inner, stringify v = '\x7b' :: (inner ++ ['\x7d']) := by
  obtain ⟨members, rfl⟩ := h.isObject
  exact ⟨_, by rw [stringify]⟩

theorem onData_readable {v : Value} (h : Readable parse v) (t : Turn) :
    onData parse t (stringify v) = { t with message := onChunk t.message v } := by
  obtain ⟨inner, hframed⟩ := h.framed
  obtain ⟨members, rfl⟩ := h.isObject
  have hdone : stringify (.object members) ≠ "[DONE]".toList := by
    rw [hframed]
    simp
  have hnone : ¬ errorMessage (.object members) ≠ [] := not_not.mpr h.noError
  rw [onData, if_neg hdone, h.parsed]
  exact if_neg hnone

theorem toSse_append (v : Value) (rest : List Char) :
    toSse v ++ rest = ("data: ".toList ++ stringify v) ++ '\n' :: ([] ++ '\n' :: rest) := by
  have hevent : toSse v = "data: ".toList ++ (stringify v ++ ['\n', '\n']) := rfl
  simp [hevent]

theorem feed_toSse {v : Value} (h : Readable parse v) {t : Turn} (ht : t.over = false)
    (rest : List Char) :
    Reader.feed '\n' (onLine parse) ⟨[], t⟩ (toSse v ++ rest) =
      Reader.feed '\n' (onLine parse) ⟨[], { t with message := onChunk t.message v }⟩ rest := by
  obtain ⟨inner, hframed⟩ := h.framed
  have hline : '\n' ∉ "data: ".toList ++ stringify v := by
    apply Printable.newline_notMem
    apply Printable.append _ (printable_stringify v)
    simp [Printable]
  rw [toSse_append, Reader.feed_line _ _ hline, Reader.feed_line _ _ List.not_mem_nil, onLine_nil, hframed,
    onLine_data ht (by decide) (by decide), ← hframed, onData_readable h]

/-- All events, and then the one that ends the stream. -/
theorem feed_wire {events : List Value} (h : ∀ v ∈ events, Readable parse v) {t : Turn}
    (ht : t.over = false) :
    Reader.feed '\n' (onLine parse) ⟨[], t⟩ (wire events) =
      ⟨[], { t with message := events.foldl onChunk t.message, complete := true }⟩ := by
  induction events generalizing t with
  | nil =>
    have hline : '\n' ∉ "data: [DONE]".toList := by decide
    have hsplit : wire [] = "data: [DONE]".toList ++ '\n' :: ([] ++ '\n' :: []) := by decide
    have hdone : onLine parse t "data: [DONE]".toList = { t with complete := true } := by
      have hframed : "data: [DONE]".toList = "data: ".toList ++ ('[' :: ("DONE".toList ++ [']'])) := by simp
      rw [hframed, onLine_data ht (by decide) (by decide), onData, if_pos (by simp)]
    rw [hsplit, Reader.feed_line _ _ hline, Reader.feed_line _ _ List.not_mem_nil, onLine_nil, hdone]
    rfl
  | cons v rest ih =>
    obtain ⟨hv, hrest⟩ := List.forall_mem_cons.mp h
    have hwire : wire (v :: rest) = toSse v ++ wire rest := by
      simp [wire]
    rw [hwire, feed_toSse hv ht, List.foldl_cons]
    exact ih hrest ht

/-! ## What the events say -/

theorem text_ne_nil (reason : FinishReason) : reason.text ≠ [] := by
  cases reason <;> decide

theorem buildChunk_choices (created : ℕ) (input : ChunkInput) :
    (buildChunk created input).member "choices" = some (.array
      [.object
        [(js "index", .number (natural 0)),
         (js "delta", .object
           ((if input.role then [(js "role", .string (js "assistant"))] else []) ++
             (input.delta.map fun delta => (js "content", .string delta)).toList)),
         (js "finish_reason", (input.finishReason.map fun reason => .string reason.text).getD .null)]]) := by
  simp [buildChunk, Value.member, List.lookup]

theorem buildChunk_absent (created : ℕ) (input : ChunkInput) {key : String}
    (h : key ∉ ["id", "object", "created", "model", "choices", "usage"]) :
    (buildChunk created input).member key = none := by
  simp only [List.mem_cons, List.not_mem_nil, or_false, not_or] at h
  cases hu : input.usage <;> simp [buildChunk, Value.member, List.lookup, hu, h]

theorem buildChunk_delta (created : ℕ) (input : ChunkInput) :
    ((((((buildChunk created input).member "choices").bind (Value.item 0)).bind
      (Value.member "delta")).bind (Value.member "content")).bind Value.string?) = input.delta := by
  rw [buildChunk_choices]
  cases hrole : input.role <;> cases hdelta : input.delta <;>
    simp [Value.item, Value.member, Value.string?, List.lookup]

theorem buildChunk_finishReason (created : ℕ) (input : ChunkInput) :
    (((((buildChunk created input).member "choices").bind (Value.item 0)).bind
      (Value.member "finish_reason")).bind Value.string?) = input.finishReason.map FinishReason.text := by
  rw [buildChunk_choices]
  cases hreason : input.finishReason <;> simp [Value.item, Value.member, Value.string?, List.lookup]

/-- A chunk adds its delta, and sets the finish reason when it has one. -/
theorem onChunk_buildChunk (m : ChatMessage) (created : ℕ) (input : ChunkInput) :
    onChunk m (buildChunk created input) =
      { m with
        content := m.content ++ input.delta.getD []
        finishReason := (input.finishReason.map FinishReason.text).or m.finishReason } := by
  have hhits : (buildChunk created input).member "modelforge" = none :=
    buildChunk_absent created input (by decide)
  simp only [onChunk, hhits, buildChunk_delta, buildChunk_finishReason, Option.bind_none,
    Option.isSome_none, Bool.false_eq_true, if_false]
  split
  · rfl
  · rename_i hempty
    rw [not_or, not_not, not_not] at hempty
    obtain ⟨hdelta, hreason⟩ := hempty
    have hnone : input.finishReason = none := by
      cases hr : input.finishReason with
      | none => rfl
      | some reason =>
        rw [hr] at hreason
        exact absurd hreason (text_ne_nil reason)
    rw [hdelta, hnone, List.append_nil]
    rfl

theorem errorMessage_buildChunk (created : ℕ) (input : ChunkInput) :
    errorMessage (buildChunk created input) = [] := by
  have herror : (buildChunk created input).member "error" = none :=
    buildChunk_absent created input (by decide)
  rw [errorMessage, herror]
  rfl

theorem readable_buildChunk {created : ℕ} {input : ChunkInput}
    (h : parse (stringify (buildChunk created input)) = some (buildChunk created input)) :
    Readable parse (buildChunk created input) where
  isObject := ⟨_, rfl⟩
  parsed := h
  noError := errorMessage_buildChunk created input

/-- Chunks in a row add their deltas, and the last finish reason stays. -/
theorem foldl_buildChunk (inputs : List (ℕ × ChunkInput)) (m : ChatMessage) :
    (inputs.map fun input => buildChunk input.1 input.2).foldl onChunk m =
      { m with
        content := m.content ++ inputs.flatMap fun input => input.2.delta.getD []
        finishReason := inputs.foldl (fun reason input =>
          (input.2.finishReason.map FinishReason.text).or reason) m.finishReason } := by
  induction inputs generalizing m with
  | nil =>
    rw [List.flatMap_nil, List.append_nil]
    rfl
  | cons input rest ih =>
    rw [List.map_cons, List.foldl_cons, onChunk_buildChunk, ih, List.flatMap_cons, List.append_assoc,
      List.foldl_cons]

/-! ## The events of a reply -/

theorem retrieval_eq {reply : Reply} {v : Value} (h : v ∈ reply.retrieval) :
    ∃ ids hits, reply.sources = some (ids, hits) ∧
      v = .object [(js "modelforge", .object [(js "retrieval", .object
        [(js "knowledge_base_ids", .array ids), (js "hits", .array hits)])])] := by
  unfold Reply.retrieval at h
  split at h
  · exact absurd h List.not_mem_nil
  · rename_i ids hits hsources
    exact ⟨ids, hits, hsources, List.mem_singleton.mp h⟩

theorem foldl_retrieval (reply : Reply) (m : ChatMessage) (h : m.sources = none) :
    reply.retrieval.foldl onChunk m = { m with sources := reply.sources.map Prod.snd } := by
  unfold Reply.retrieval
  split
  · rename_i hnone
    rw [hnone, Option.map_none, ← h]
    rfl
  · rename_i ids hits hsources
    rw [hsources]
    simp [onChunk, Value.member, Value.array?, List.lookup]

/-- The chunks that a piece of the model's output is written as. -/
theorem written_eq (reply : Reply) (created : ℕ) (chunk : GenerateChunk) :
    ∃ inputs : List (ℕ × ChunkInput),
      (if chunk.delta = [] then []
        else [buildChunk created
          ⟨reply.completionId, reply.resolvedModelSlug, some chunk.delta, false, none, none⟩]) =
        inputs.map (fun input => buildChunk input.1 input.2) ∧
      (inputs.flatMap fun input => input.2.delta.getD []) = chunk.delta ∧
      ∀ reason, inputs.foldl (fun reason input =>
        (input.2.finishReason.map FinishReason.text).or reason) reason = reason := by
  by_cases hdelta : chunk.delta = []
  · rw [if_pos hdelta, hdelta]
    exact ⟨[], rfl, rfl, fun _ => rfl⟩
  · rw [if_neg hdelta]
    refine ⟨[(created, _)], rfl, ?_, fun _ => rfl⟩
    exact List.append_nil _

/-- The stream is written as chunks up to the final one, whose reason stays. -/
theorem streamed_eq (reply : Reply) (clock : ℕ → ℕ) {init : List GenerateChunk} {last : GenerateChunk}
    (hinit : ∀ chunk ∈ init, chunk.is_final = false) (hlast : last.is_final = true)
    (rest : List GenerateChunk) (k promptTokens completionTokens : ℕ) (content : JsString) :
    ∃ inputs : List (ℕ × ChunkInput),
      streamed reply clock k promptTokens completionTokens content (init ++ last :: rest) =
        inputs.map (fun input => buildChunk input.1 input.2) ∧
      (inputs.flatMap fun input => input.2.delta.getD []) =
        (init ++ [last]).flatMap GenerateChunk.delta ∧
      ∀ reason, inputs.foldl (fun reason input =>
        (input.2.finishReason.map FinishReason.text).or reason) reason =
          some last.finishReason.text := by
  induction init generalizing k promptTokens completionTokens content with
  | nil =>
    obtain ⟨inputs, hwritten, hdelta, hreason⟩ := written_eq reply (clock k) last
    rw [List.nil_append, streamed]
    simp only [hlast, if_true, hwritten]
    refine ⟨inputs ++ [(_, _)], by rw [List.map_append]; rfl, ?_, ?_⟩
    · rw [List.flatMap_append, hdelta]
      rfl
    · intro reason
      rw [List.foldl_append, hreason]
      rfl
  | cons chunk init ih =>
    obtain ⟨hchunk, hinit⟩ := List.forall_mem_cons.mp hinit
    obtain ⟨inputs, hwritten, hdelta, hreason⟩ := written_eq reply (clock k) chunk
    rw [List.cons_append, streamed]
    simp only [hchunk, Bool.false_eq_true, if_false, hwritten]
    obtain ⟨more, hmore, hmoreDelta, hmoreReason⟩ := ih hinit
      (k + (inputs.map fun input => buildChunk input.1 input.2).length)
      (if chunk.prompt_tokens = 0 then promptTokens else chunk.prompt_tokens)
      (if chunk.completion_tokens = 0 then completionTokens else chunk.completion_tokens)
      (content ++ chunk.delta)
    refine ⟨inputs ++ more, ?_, ?_, ?_⟩
    · rw [hmore, List.map_append]
    · rw [List.flatMap_append, hdelta, hmoreDelta, List.cons_append, List.flatMap_cons]
    · intro reason
      rw [List.foldl_append, hmoreReason]

theorem readable_retrieval {reply : Reply} {v : Value} (h : v ∈ reply.retrieval)
    (hparse : parse (stringify v) = some v) : Readable parse v := by
  obtain ⟨ids, hits, -, rfl⟩ := retrieval_eq h
  refine ⟨⟨_, rfl⟩, hparse, ?_⟩
  simp [errorMessage, Value.member, List.lookup]

/-- What the client has when the stream has ended, however its bytes were cut:
the deltas in a row and the finish reason of the final chunk. -/
theorem stream_round_trip (parse : List Char → Option Value)
    (decode : List (List UInt8) → List (List Char))
    (hdecode : ∀ chunks text, chunks.flatten = utf8.encodeAll text → (decode chunks).flatten = text)
    (reply : Reply) (clock : ℕ → ℕ) (init : List GenerateChunk) (last : GenerateChunk)
    (rest : List GenerateChunk) (hinit : ∀ chunk ∈ init, chunk.is_final = false)
    (hlast : last.is_final = true)
    (hparse : ∀ v ∈ events reply clock (init ++ last :: rest), parse (stringify v) = some v)
    (chunks : List (List UInt8))
    (hchunks : chunks.flatten = utf8.encodeAll (wire (events reply clock (init ++ last :: rest)))) :
    receive parse (decode chunks) =
      { message :=
          { content := (init ++ [last]).flatMap GenerateChunk.delta
            finishReason := some last.finishReason.text
            error := false
            sources := reply.sources.map Prod.snd }
        complete := true
        thrown := none } := by
  obtain ⟨inputs, hstreamed, hdelta, hreason⟩ :=
    streamed_eq reply clock hinit hlast rest (1 + reply.retrieval.length) 0 0 []
  have hreadable : ∀ v ∈ events reply clock (init ++ last :: rest), Readable parse v := by
    intro v hv
    have hparsed := hparse v hv
    rw [events, List.mem_cons, List.mem_append, hstreamed] at hv
    rcases hv with rfl | hv | hv
    · exact readable_buildChunk hparsed
    · exact readable_retrieval hv hparsed
    · obtain ⟨input, -, rfl⟩ := List.mem_map.mp hv
      exact readable_buildChunk hparsed
  rw [receive_eq, hdecode chunks _ hchunks, feed_wire hreadable rfl]
  have hmessage : (events reply clock (init ++ last :: rest)).foldl onChunk Turn.start.message =
      { content := (init ++ [last]).flatMap GenerateChunk.delta
        finishReason := some last.finishReason.text
        error := false
        sources := reply.sources.map Prod.snd } := by
    rw [events, List.foldl_cons, onChunk_buildChunk, List.foldl_append, hstreamed,
      foldl_retrieval _ _ rfl, foldl_buildChunk, hdelta, hreason]
    rfl
  rw [hmessage]
  rfl

section Sample

def sampleReply : Reply := ⟨js "chatcmpl", js "echo", some ([], []), 3⟩

/-- A text that looks like the end of the stream, and then the end. -/
def sampleInit : List GenerateChunk := [⟨js "é\n\ndata: [DONE]\n\n", 0, 0, false, []⟩]

def sampleLast : GenerateChunk := ⟨js "\"", 3, 2, true, js "length"⟩

def sampleEvents : List Value := events sampleReply id (sampleInit ++ sampleLast :: [])

/-- `JSON.parse` on the texts of the sample. -/
def sampleParse (text : List Char) : Option Value := sampleEvents.find? (stringify · == text)

theorem find_stringify {values : List Value} (h : (values.map stringify).Nodup) {v : Value}
    (hv : v ∈ values) : values.find? (stringify · == stringify v) = some v := by
  induction values with
  | nil => exact absurd hv List.not_mem_nil
  | cons w rest ih =>
    obtain ⟨hw, hrest⟩ := List.nodup_cons.mp h
    cases hv with
    | head => exact List.find?_cons_of_pos (beq_self_eq_true _)
    | tail _ hv =>
      have hne : stringify w ≠ stringify v := by
        intro heq
        exact hw (heq ▸ List.mem_map_of_mem hv)
      rw [List.find?_cons_of_neg (by simp [hne])]
      exact ih hrest hv

/-- The sample, cut at every byte. -/
theorem stream_round_trip_sample :
    receive sampleParse (utf8.decodeEach [] ((utf8.encodeAll (wire sampleEvents)).map ([·]))) =
      { message :=
          { content := js "é\n\ndata: [DONE]\n\n\""
            finishReason := some (js "length")
            error := false
            sources := some [] }
        complete := true
        thrown := none } := by
  have hdistinct : (sampleEvents.map stringify).Nodup := by decide +kernel
  have hchunks : ((utf8.encodeAll (wire sampleEvents)).map ([·])).flatten =
      utf8.encodeAll (wire sampleEvents) := by
    rw [← List.flatMap_def]
    exact List.flatMap_singleton' _
  exact stream_round_trip sampleParse (utf8.decodeEach []) (fun _ _ => utf8.decodeEach_flatten)
    sampleReply id sampleInit sampleLast [] (by decide) rfl (fun _ => find_stringify hdistinct) _ hchunks

end Sample

end ModelForge.StreamRoundTrip
