import ModelForge.TextChunks

set_option autoImplicit false

/-!
# Alternating roles

`coalesceAlternatingRoles` merges the messages of a side that follow each other, so
that a chat template accepts them.
-/
namespace ModelForge.RoleCoalescing
open EventStream (JsString js)
open ReservationCover (ChatTurn isWhiteSpace trim)
open SpacedText (InOrder)

/-! ## The function -/

structure Message where
  role : String
  content : JsString
deriving DecidableEq

def coalescable (role : String) : Bool := role = "user" || role = "assistant"

/-- The loop's turn for a message. -/
def coalesceMessage (output : List Message) (message : Message) : List Message :=
  if trim message.content = [] then output
  else
    match output.getLast? with
    | some last =>
      if last.role = message.role && coalescable message.role then
        output.dropLast ++ [{ last with content := trim (last.content ++ js "\n\n" ++ message.content) }]
      else output ++ [message]
    | none => output ++ [message]

def coalesceAlternatingRoles (messages : List Message) : List Message :=
  messages.foldl coalesceMessage []

example : coalesceAlternatingRoles
    [⟨"user", js " a"⟩, ⟨"assistant", js "\n"⟩, ⟨"user", js "b "⟩, ⟨"tool", js "c"⟩, ⟨"tool", js "d"⟩] =
      [⟨"user", js "a\n\nb"⟩, ⟨"tool", js "c"⟩, ⟨"tool", js "d"⟩] := by decide +kernel

/-! ## The roles of a request -/

def roleName : ReservationCover.Role → String
  | .system => "system"
  | .user => "user"
  | .assistant => "assistant"
  | .tool => "tool"

def message (turn : ChatTurn) : Message := ⟨roleName turn.role, turn.content⟩

theorem roleName_eq_iff {r r' : ReservationCover.Role} : roleName r = roleName r' ↔ r = r' := by
  cases r <;> cases r' <;> simp [roleName]

theorem coalescable_roleName (r : ReservationCover.Role) :
    coalescable (roleName r) = ReservationCover.coalescable r := by
  cases r <;> rfl

theorem coalesceMessage_map (output : List ChatTurn) (turn : ChatTurn) :
    coalesceMessage (output.map message) (message turn) =
      (ReservationCover.coalesceTurn output turn).map message := by
  unfold coalesceMessage ReservationCover.coalesceTurn
  by_cases hblank : trim turn.content = []
  · rw [if_pos (show trim (message turn).content = [] from hblank), if_pos hblank]
  · rw [if_neg (show ¬ trim (message turn).content = [] from hblank), if_neg hblank, List.getLast?_map]
    cases output.getLast? with
    | none =>
      have happend : (output ++ [turn]).map message = output.map message ++ [message turn] := List.map_append
      exact happend.symm
    | some last =>
      simp only [Option.map_some, message, coalescable_roleName, roleName_eq_iff]
      by_cases hsame : (last.role = turn.role && ReservationCover.coalescable turn.role) = true
      · rw [if_pos hsame, if_pos hsame, List.map_append, List.map_dropLast]
        rfl
      · rw [if_neg hsame, if_neg hsame, List.map_append]
        rfl

/-- For the roles of a request, these are the messages that the handler sends on. -/
theorem coalesceAlternatingRoles_map (turns : List ChatTurn) :
    coalesceAlternatingRoles (turns.map message) =
      (ReservationCover.coalesceAlternatingRoles turns).map message := by
  have hfold : ∀ output : List ChatTurn, (turns.map message).foldl coalesceMessage (output.map message) =
      (turns.foldl ReservationCover.coalesceTurn output).map message := by
    induction turns with
    | nil => exact fun _ => rfl
    | cons turn turns ih =>
      intro output
      rw [List.map_cons, List.foldl_cons, List.foldl_cons, coalesceMessage_map, ih]
  exact hfold []

/-! ## One message -/

def Blank (m : Message) : Prop := trim m.content = []

instance (m : Message) : Decidable (Blank m) := inferInstanceAs (Decidable (_ = _))

/-- Two messages of a side that takes no two in a row. -/
def Joins (a b : Message) : Prop := a.role = b.role ∧ coalescable b.role = true

def joined (last message : Message) : Message :=
  { last with content := trim (last.content ++ js "\n\n" ++ message.content) }

/-- What the loop does with a message. -/
theorem coalesceMessage_cases (output : List Message) (m : Message) :
    Blank m ∧ coalesceMessage output m = output ∨
      ¬ Blank m ∧ (∃ init last, output = init ++ [last] ∧ Joins last m ∧
        coalesceMessage output m = init ++ [joined last m]) ∨
      ¬ Blank m ∧ (∀ last ∈ output.getLast?, ¬ Joins last m) ∧ coalesceMessage output m = output ++ [m] := by
  by_cases hblank : Blank m
  · exact .inl ⟨hblank, if_pos hblank⟩
  · have hturn : coalesceMessage output m = match output.getLast? with
        | some last =>
          if last.role = m.role && coalescable m.role then output.dropLast ++ [joined last m]
          else output ++ [m]
        | none => output ++ [m] := if_neg hblank
    rw [hturn]
    cases List.eq_nil_or_concat output with
    | inl hnil =>
      rw [hnil]
      exact .inr (.inr ⟨hblank, by simp, rfl⟩)
    | inr hconcat =>
      obtain ⟨init, last, rfl⟩ := hconcat
      rw [List.concat_eq_append, List.getLast?_concat, List.dropLast_concat]
      by_cases hjoins : Joins last m
      · refine .inr (.inl ⟨hblank, init, last, rfl, hjoins, if_pos ?_⟩)
        simpa [Joins] using hjoins
      · refine .inr (.inr ⟨hblank, ?_, if_neg ?_⟩)
        · simpa using hjoins
        · simpa [Joins] using hjoins

/-- The parts that a message is merged from. -/
structure Merge where
  parts : List Message
  merged : Message

/-- The parts are on the message's side, and their texts stand in its text. -/
structure Merge.Sound (merge : Merge) : Prop where
  role : ∀ part ∈ merge.parts, part.role = merge.merged.role
  nonblank : ∀ part ∈ merge.parts, ¬ Blank part
  inOrder : InOrder (merge.parts.map fun part => trim part.content) merge.merged.content

/-- What is asked of the output for a list of messages. -/
structure Transcript (messages output : List Message) : Prop where
  alternates : output.IsChain fun a b => ¬ Joins a b
  nonblank : ∀ m ∈ output, ¬ Blank m
  keeps : ∃ merges : List Merge, merges.map (·.merged) = output ∧
    (merges.map (·.parts)).flatten = messages.filter (fun m => ¬ Blank m) ∧ ∀ merge ∈ merges, merge.Sound

theorem blank_iff {m : Message} : Blank m ↔ ∀ c ∈ m.content, isWhiteSpace c = true := SpacedText.trim_eq_nil_iff

theorem not_blank_joined (last : Message) {m : Message} (hm : ¬ Blank m) : ¬ Blank (joined last m) := by
  intro hblank
  have htrim : trim (joined last m).content = (joined last m).content := SpacedText.trim_trim isWhiteSpace _
  rw [Blank, htrim] at hblank
  have hall : ∀ c ∈ last.content ++ js "\n\n" ++ m.content, isWhiteSpace c = true :=
    SpacedText.trim_eq_nil_iff.mp hblank
  exact hm (blank_iff.mpr fun c hc => hall c (List.mem_append_right _ hc))

theorem forall_mem_concat {α : Type} {p : α → Prop} {l : List α} {a : α} (hl : ∀ x ∈ l, p x) (ha : p a) :
    ∀ x ∈ l ++ [a], p x :=
  List.forall_mem_append.mpr ⟨hl, List.forall_mem_singleton.mpr ha⟩

/-- A part more, whose text is put behind a blank line. -/
theorem Merge.Sound.join {merge : Merge} (h : merge.Sound) {m : Message} (hm : ¬ Blank m)
    (hjoins : Joins merge.merged m) : Merge.Sound ⟨merge.parts ++ [m], joined merge.merged m⟩ := by
  have hnonblank : ∀ part ∈ merge.parts ++ [m], ¬ Blank part := forall_mem_concat h.nonblank hm
  refine ⟨forall_mem_concat h.role hjoins.1.symm, hnonblank, ?_⟩
  · have hgap : InOrder [] (js "\n\n") := trivial
    have horder := (h.inOrder.append hgap).append (SpacedText.inOrder_trim isWhiteSpace m.content)
    rw [List.append_nil] at horder
    rw [List.map_append]
    apply horder.trim
    intro text htext
    change text ∈ merge.parts.map (fun part => trim part.content) ++ [m].map (fun part => trim part.content)
      at htext
    rw [← List.map_append] at htext
    obtain ⟨part, hpart, rfl⟩ := List.mem_map.mp htext
    exact SpacedText.framed_trim (hnonblank part hpart)

theorem Merge.sound_single {m : Message} (hm : ¬ Blank m) : Merge.Sound ⟨[m], m⟩ := by
  refine ⟨by simp, by simpa using hm, ?_⟩
  exact SpacedText.inOrder_trim isWhiteSpace m.content

/-! ## All messages -/

variable {messages output : List Message}

theorem chain_joined {init : List Message} {last : Message}
    (h : (init ++ [last]).IsChain fun a b => ¬ Joins a b) (m : Message) :
    (init ++ [joined last m]).IsChain fun a b => ¬ Joins a b := by
  obtain ⟨hinit, _, hlast⟩ := List.isChain_append.mp h
  refine List.isChain_append.mpr ⟨hinit, List.isChain_singleton _, fun a ha b hb => ?_⟩
  cases hb
  exact hlast a ha last rfl

/-- What a turn of the loop keeps. -/
theorem Transcript.step (h : Transcript messages output) (m : Message) :
    Transcript (messages ++ [m]) (coalesceMessage output m) := by
  obtain ⟨merges, hmerged, hparts, hsound⟩ := h.keeps
  rcases coalesceMessage_cases output m with ⟨hblank, heq⟩ | ⟨hm, init, last, rfl, hjoins, heq⟩ | ⟨hm, hends, heq⟩
  · rw [heq]
    refine ⟨h.alternates, h.nonblank, merges, hmerged, ?_, hsound⟩
    rw [hparts, List.filter_append]
    simp [hblank]
  · rw [heq]
    obtain ⟨before, ends, rfl, hbefore, hends⟩ := List.map_eq_append_iff.mp hmerged
    obtain ⟨merge, rfl, rfl⟩ := List.map_eq_singleton_iff.mp hends
    obtain ⟨hinit, _⟩ := List.forall_mem_append.mp h.nonblank
    obtain ⟨hsounds, hlast⟩ := List.forall_mem_append.mp hsound
    refine ⟨chain_joined h.alternates m, forall_mem_concat hinit (not_blank_joined _ hm), ?_⟩
    · refine ⟨before ++ [⟨merge.parts ++ [m], joined merge.merged m⟩], ?_, ?_, ?_⟩
      · rw [List.map_append, hbefore]
        rfl
      · rw [List.filter_append, ← hparts]
        simp [hm]
      · exact forall_mem_concat hsounds ((hlast merge (List.mem_singleton_self _)).join hm hjoins)
  · rw [heq]
    refine ⟨?_, forall_mem_concat h.nonblank hm, merges ++ [⟨[m], m⟩], ?_, ?_, ?_⟩
    · refine List.isChain_append.mpr ⟨h.alternates, List.isChain_singleton _, fun a ha b hb => ?_⟩
      cases hb
      exact hends a ha
    · rw [List.map_append, hmerged]
      rfl
    · rw [List.map_append, List.flatten_append, hparts, List.filter_append]
      simp [hm]
    · exact forall_mem_concat hsound (Merge.sound_single hm)

theorem transcript_nil : Transcript [] [] :=
  ⟨List.isChain_nil, by simp, [], rfl, rfl, by simp⟩

/-- What the whole loop keeps, from any state on. -/
theorem Transcript.run {before : List Message} (h : Transcript before output) (messages : List Message) :
    Transcript (before ++ messages) (messages.foldl coalesceMessage output) := by
  induction messages generalizing before output with
  | nil => rwa [List.append_nil]
  | cons m messages ih =>
    rw [List.foldl_cons, List.append_cons]
    exact ih (h.step m)

/-- A transcript passes through the loop as it is. -/
theorem foldl_of_alternates (halternates : (output ++ messages).IsChain fun a b => ¬ Joins a b)
    (hnonblank : ∀ m ∈ messages, ¬ Blank m) : messages.foldl coalesceMessage output = output ++ messages := by
  induction messages generalizing output with
  | nil => exact (List.append_nil output).symm
  | cons m messages ih =>
    have hturn : coalesceMessage output m = output ++ [m] := by
      rcases coalesceMessage_cases output m with ⟨hblank, _⟩ | ⟨_, init, last, rfl, hjoins, _⟩ | ⟨_, _, heq⟩
      · exact absurd hblank (hnonblank m List.mem_cons_self)
      · have hlast := (List.isChain_append.mp halternates).2.2
        exact absurd hjoins (hlast last (by simp) m rfl)
      · exact heq
    rw [List.foldl_cons, hturn]
    rw [List.append_cons] at halternates
    rw [ih halternates fun x hx => hnonblank x (List.mem_cons_of_mem _ hx), ← List.append_cons]

/-- The output is a transcript that loses nothing, and it is left as it is. -/
theorem coalesces (messages : List Message) :
    Transcript messages (coalesceAlternatingRoles messages) ∧
      coalesceAlternatingRoles (coalesceAlternatingRoles messages) = coalesceAlternatingRoles messages := by
  have htranscript : Transcript messages (coalesceAlternatingRoles messages) := transcript_nil.run messages
  exact ⟨htranscript, foldl_of_alternates htranscript.alternates htranscript.nonblank⟩

end ModelForge.RoleCoalescing
