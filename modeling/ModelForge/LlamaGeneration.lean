import ModelForge.ModelPool
import ModelForge.StopSequences

set_option autoImplicit false

/-!
# The llama loop

`run_llama` samples tokens until one of them ends the generation. What llama.cpp
answers to the calls of the loop is a parameter, as is when the receiver closes.
-/
namespace ModelForge.LlamaGeneration
open ModelPool (EngineError)
open StopSequences

/-! ## The loop -/

inductive Sampled where
  /-- A token that ends the generation. -/
  | eog
  /-- What `token_to_str` gives for the token: nothing, if its bytes are no text. -/
  | token (str : Option Text)

structure Llama where
  backend : Except String Unit
  new_context : Except String Unit
  /-- `LlamaChatMessage::new` takes the role and the content. -/
  new_message : Text × Text → Bool
  apply_chat_template : List (Text × Text) → Option Text
  /-- How many tokens the prompt has. -/
  str_to_token : Text → Except String ℕ
  add_prompt : Except String Unit
  decode_prompt : Except String Unit
  sample : ℕ → Sampled
  add_token : ℕ → Except String Unit
  decode_token : ℕ → Except String Unit

/-- What was sent, how many tokens were sampled, and what the function returns. -/
structure Generation where
  sent : List GenerateToken
  sampled : ℕ
  result : Except EngineError Unit

def prepare (llama : Llama) (messages : List (Text × Text)) (fallback_prompt : Text) :
    Except EngineError ℕ := do
  llama.backend.mapError fun e => .ModelUnavailable ("llama backend: " ++ e)
  llama.new_context.mapError fun e => .ModelUnavailable ("context failed: " ++ e)
  let chat_msgs := messages.filter llama.new_message
  let prompt := (llama.apply_chat_template chat_msgs).getD fallback_prompt
  let tokens ← (llama.str_to_token prompt).mapError fun e => .InvalidArgument ("tokenize failed: " ++ e)
  llama.add_prompt.mapError fun e => .Internal ("batch add: " ++ e)
  llama.decode_prompt.mapError fun e => .Internal ("decode prompt: " ++ e)
  return tokens

/-- The token goes back into the context. -/
def feed (llama : Llama) (i : ℕ) : Except EngineError Unit := do
  (llama.add_token i).mapError fun e => .Internal ("batch add token: " ++ e)
  (llama.decode_token i).mapError fun e => .Internal ("decode token: " ++ e)

/-- The rounds that are left, when `i` tokens have been produced. -/
def rounds (llama : Llama) (stops : List Text) (tx : ℕ → Bool) (prompt_tokens : ℤ) :
    ℕ → ℕ → Text → Generation
  | 0, i, _ => ⟨deliver tx i ⟨[], true, prompt_tokens, i, "length"⟩, i, .ok ()⟩
  | left + 1, i, produced =>
    match llama.sample i with
    | .eog => ⟨deliver tx i ⟨[], true, prompt_tokens, i, "stop"⟩, i + 1, .ok ()⟩
    | .token str =>
      let piece := str.getD []
      let produced := produced ++ piece
      let stop := hit_stop produced stops
      let token : GenerateToken :=
        ⟨piece, stop, prompt_tokens, i + 1, if stop then "stop" else ""⟩
      if !tx i then ⟨[], i + 1, .ok ()⟩
      else if stop then ⟨[token], i + 1, .ok ()⟩
      else
        match feed llama i with
        | .error e => ⟨[token], i + 1, .error e⟩
        | .ok () =>
          let rest := rounds llama stops tx prompt_tokens left (i + 1) produced
          { rest with sent := token :: rest.sent }

def run_llama (llama : Llama) (max_tokens : ℕ) (stops : List Text) (messages : List (Text × Text))
    (fallback_prompt : Text) (prompt_tokens_est : ℤ) (tx : ℕ → Bool) : Generation :=
  match prepare llama messages fallback_prompt with
  | .error e => ⟨[], 0, .error e⟩
  | .ok tokens => rounds llama stops tx (max tokens prompt_tokens_est) max_tokens 0 []

/-! ## The caller -/

/-- What comes out of the channel that the blocking thread sends to. -/
def Generation.items (g : Generation) : List (Except EngineError GenerateToken) :=
  g.sent.map .ok ++ match g.result with
    | .error e => [.error e]
    | .ok () => []

/-- The loop of `generate_real`: what it sends on, and what it returns. -/
def forward (tx : ℕ → Bool) : ℕ → ℕ → List (Except EngineError GenerateToken) →
    List (Except EngineError GenerateToken) × Except EngineError ℕ
  | _, completion_tokens, [] => ([], .ok completion_tokens)
  | i, _, .ok tok :: items =>
    if !tx i then ([], .ok tok.completion_tokens)
    else if tok.is_final then ([.ok tok], .ok tok.completion_tokens)
    else
      let rest := forward tx (i + 1) tok.completion_tokens items
      (.ok tok :: rest.1, rest.2)
  | i, _, .error e :: _ =>
    (if tx i then [.error e] else [], .error (.Internal "generate failed"))

/-- `btx` is the channel of the blocking thread, which the caller may drop. -/
def generate_real (model : Option Llama) (params : GenerateParams) (prompt : Text)
    (prompt_tokens_est : ℤ) (btx tx : ℕ → Bool) :
    List (Except EngineError GenerateToken) × Except EngineError ℕ :=
  match model with
  | none => ([], .error (.ModelUnavailable "model weights not resident"))
  | some llama =>
    let messages := params.messages.map fun m => (m.role, m.content)
    forward tx 0 0 (run_llama llama params.limit params.stop_sequences messages prompt
      prompt_tokens_est btx).items

/-! ## The text and its first stop -/

def piece (llama : Llama) (i : ℕ) : Text :=
  match llama.sample i with
  | .eog => []
  | .token str => str.getD []

def pieces (llama : Llama) (k : ℕ) : List Text := (List.range k).map (piece llama)

/-- The text of the first `k` tokens. -/
def textAfter (llama : Llama) (k : ℕ) : Text := (pieces llama k).flatten

/-- The first `k` tokens do not end the generation. -/
def GoesOn (llama : Llama) (k : ℕ) : Prop := ∀ i < k, llama.sample i ≠ .eog

/-- After `k` tokens, and not before, the text contains a stop sequence. -/
structure FirstStop (llama : Llama) (stops : List Text) (k : ℕ) : Prop where
  goesOn : GoesOn llama k
  contains : ContainsStop (textAfter llama k) stops
  before : ∀ j < k, ¬ ContainsStop (textAfter llama j) stops

theorem textAfter_succ (llama : Llama) (k : ℕ) :
    textAfter llama (k + 1) = textAfter llama k ++ piece llama k := by
  simp [textAfter, pieces, List.range_succ]

variable {llama : Llama} {stops : List Text} {prompt_tokens : ℤ} {left i k : ℕ}

/-- The chunk of a token that does not stop the generation. -/
def chunk (llama : Llama) (prompt_tokens : ℤ) (i : ℕ) : GenerateToken :=
  ⟨piece llama i, false, prompt_tokens, i + 1, ""⟩

/-- The last round of a run that has begun with `i` tokens: `k` tokens are
produced without a stop, and then the final chunk is sent. -/
inductive Ends (llama : Llama) (stops : List Text) (prompt_tokens : ℤ) (most k : ℕ) :
    GenerateToken → ℕ → Prop where
  | stop (hk : k < most) (hgoes : llama.sample k ≠ .eog)
      (hhit : hit_stop (textAfter llama (k + 1)) stops = true) :
      Ends llama stops prompt_tokens most k ⟨piece llama k, true, prompt_tokens, k + 1, "stop"⟩ (k + 1)
  | eog (hk : k < most) (heog : llama.sample k = .eog) :
      Ends llama stops prompt_tokens most k ⟨[], true, prompt_tokens, k, "stop"⟩ (k + 1)
  | length (hk : k = most) : Ends llama stops prompt_tokens most k ⟨[], true, prompt_tokens, k, "length"⟩ k

/-- What a run from `i` tokens on sends, and how many tokens are sampled. -/
structure Outcome (llama : Llama) (stops : List Text) (prompt_tokens : ℤ) (most i : ℕ)
    (g : Generation) : Prop where
  ended : ∃ k final, i ≤ k ∧
    (∀ j, i ≤ j → j < k → llama.sample j ≠ .eog ∧ hit_stop (textAfter llama (j + 1)) stops = false) ∧
    Ends llama stops prompt_tokens most k final g.sampled ∧
    g.sent = (List.range' i (k - i)).map (chunk llama prompt_tokens) ++ [final]
  result : g.result = .ok ()

/-- By induction on the rounds that are left. -/
theorem rounds_outcome (hfed : ∀ i, feed llama i = .ok ()) :
    Outcome llama stops prompt_tokens (i + left) i
      (rounds llama stops (fun _ => true) prompt_tokens left i (textAfter llama i)) := by
  induction left generalizing i with
  | zero =>
    refine ⟨⟨i, _, le_rfl, fun j hij hji => absurd hij (by omega), .length rfl, ?_⟩, rfl⟩
    simp [rounds, deliver]
  | succ left ih =>
    cases hsample : llama.sample i with
    | eog =>
      have hrounds : rounds llama stops (fun _ => true) prompt_tokens (left + 1) i (textAfter llama i) =
          ⟨[⟨[], true, prompt_tokens, i, "stop"⟩], i + 1, .ok ()⟩ := by
        simp [rounds, hsample, deliver]
      rw [hrounds]
      refine ⟨⟨i, _, le_rfl, fun j hij hji => absurd hij (by omega), .eog (by omega) hsample, ?_⟩, rfl⟩
      simp
    | token str =>
      have hpiece : piece llama i = str.getD [] := by simp [piece, hsample]
      have htext : textAfter llama i ++ str.getD [] = textAfter llama (i + 1) := by
        rw [textAfter_succ, hpiece]
      have hgoes : llama.sample i ≠ .eog := by simp [hsample]
      cases hhit : hit_stop (textAfter llama (i + 1)) stops with
      | true =>
        have hrounds : rounds llama stops (fun _ => true) prompt_tokens (left + 1) i (textAfter llama i) =
            ⟨[⟨piece llama i, true, prompt_tokens, i + 1, "stop"⟩], i + 1, .ok ()⟩ := by
          simp [rounds, hsample, htext, hhit, hpiece]
        rw [hrounds]
        refine ⟨⟨i, _, le_rfl, fun j hij hji => absurd hij (by omega), .stop (by omega) hgoes hhit, ?_⟩,
          rfl⟩
        simp
      | false =>
        have hrounds : rounds llama stops (fun _ => true) prompt_tokens (left + 1) i (textAfter llama i) =
            { rounds llama stops (fun _ => true) prompt_tokens left (i + 1) (textAfter llama (i + 1)) with
              sent := chunk llama prompt_tokens i ::
                (rounds llama stops (fun _ => true) prompt_tokens left (i + 1)
                  (textAfter llama (i + 1))).sent } := by
          simp [rounds, hsample, htext, hhit, hfed, chunk, hpiece]
        have hrest := ih (i := i + 1)
        rw [show i + 1 + left = i + (left + 1) by omega] at hrest
        obtain ⟨k, final, hik, hbefore, hends, hsent⟩ := hrest.ended
        rw [hrounds]
        refine ⟨⟨k, final, by omega, ?_, hends, ?_⟩, hrest.result⟩
        · intro j hij hjk
          by_cases hj : j = i
          · rw [hj]
            exact ⟨hgoes, hhit⟩
          · exact hbefore j (by omega) hjk
        · have hrange : List.range' i (k - i) = i :: List.range' (i + 1) (k - (i + 1)) := by
            rw [show k - i = k - (i + 1) + 1 by omega, List.range'_succ]
          rw [hrange, hsent]
          rfl

/-! ## Where the generation halts -/

/-- llama.cpp answers every call of the run without an error. -/
structure Llama.Answers (llama : Llama) (messages : List (Text × Text)) (fallback_prompt : Text) :
    Prop where
  prepared : ∃ tokens, prepare llama messages fallback_prompt = .ok tokens
  fed : ∀ i, feed llama i = .ok ()

/-- What is asked of a generation: it halts at the first token after which its
text contains a stop sequence. -/
structure HaltsAtStop (llama : Llama) (stops : List Text) (max_tokens : ℕ) (g : Generation) : Prop where
  halts : ∀ k ≤ max_tokens, FirstStop llama stops k → g.sampled = k
  sent : ∃ k ≤ max_tokens, g.sent.map GenerateToken.delta = pieces llama k ∨
    g.sent.map GenerateToken.delta = pieces llama k ++ [[]]
  final : FinalLast g.sent

variable {messages : List (Text × Text)} {fallback_prompt : Text} {g : Generation} {max_tokens : ℕ}

theorem run_outcome (h : llama.Answers messages fallback_prompt) (stops : List Text) (max_tokens : ℕ)
    (prompt_tokens_est : ℤ) : ∃ prompt_tokens, Outcome llama stops prompt_tokens max_tokens 0
      (run_llama llama max_tokens stops messages fallback_prompt prompt_tokens_est fun _ => true) := by
  obtain ⟨tokens, htokens⟩ := h.prepared
  have hrounds : Outcome llama stops (max tokens prompt_tokens_est) (0 + max_tokens) 0
      (rounds llama stops (fun _ => true) (max tokens prompt_tokens_est) max_tokens 0 (textAfter llama 0)) :=
    rounds_outcome h.fed
  rw [Nat.zero_add] at hrounds
  refine ⟨max tokens prompt_tokens_est, ?_⟩
  rw [run_llama, htokens]
  exact hrounds

theorem Outcome.final (h : Outcome llama stops prompt_tokens max_tokens 0 g) : FinalLast g.sent := by
  obtain ⟨k, final, _, _, hends, hsent⟩ := h.ended
  refine ⟨_, final, hsent, ?_, ?_⟩
  · generalize g.sampled = sampled at hends
    cases hends <;> rfl
  · intro token htoken
    obtain ⟨j, _, rfl⟩ := List.mem_map.mp htoken
    rfl

theorem Outcome.sent (h : Outcome llama stops prompt_tokens max_tokens 0 g) :
    ∃ k ≤ max_tokens, g.sent.map GenerateToken.delta = pieces llama k ∨
      g.sent.map GenerateToken.delta = pieces llama k ++ [[]] := by
  obtain ⟨k, final, _, _, hends, hsent⟩ := h.ended
  have hdeltas : g.sent.map GenerateToken.delta = pieces llama k ++ [final.delta] := by
    rw [hsent, List.map_append, List.map_map, pieces, List.range_eq_range']
    rfl
  generalize g.sampled = sampled at hends
  cases hends with
  | stop hk => exact ⟨k + 1, hk, .inl (by rw [hdeltas]; simp [pieces, List.range_succ])⟩
  | eog hk => exact ⟨k, hk.le, .inr hdeltas⟩
  | length hk => exact ⟨k, hk.le, .inr hdeltas⟩

theorem FirstStop.pos (h : FirstStop llama stops k) : 0 < k := by
  rcases Nat.eq_zero_or_pos k with rfl | hpos
  · obtain ⟨s, _, hne, hinfix⟩ := h.contains
    exact absurd (List.infix_nil.mp hinfix) hne
  · exact hpos

/-- No token before the first stop is one at which the loop stops. -/
theorem FirstStop.le_of_hit (h : FirstStop llama stops k) {j : ℕ}
    (hhit : hit_stop (textAfter llama j) stops = true) : k ≤ j := by
  by_contra hlt
  exact h.before j (by omega) (containsStop_of_hit hhit)

theorem Outcome.halts_iff (h : Outcome llama stops prompt_tokens max_tokens 0 g)
    (hfirst : FirstStop llama stops k) (hk : k ≤ max_tokens) :
    g.sampled = k ↔ (k < max_tokens → hit_stop (textAfter llama k) stops = true) := by
  obtain ⟨n, final, _, hbefore, hends, _⟩ := h.ended
  have hpos := hfirst.pos
  have hreached (hhit : k < max_tokens → hit_stop (textAfter llama k) stops = true) (hlt : k < max_tokens) :
      n < k := by
    by_contra hnot
    have hlast := (hbefore (k - 1) (by omega) (by omega)).2
    rw [Nat.sub_add_cancel hpos, hhit hlt] at hlast
    cases hlast
  generalize g.sampled = sampled at hends
  cases hends with
  | stop hn _ hhit =>
    have hle := hfirst.le_of_hit hhit
    constructor
    · intro heq _
      exact heq ▸ hhit
    · intro hcond
      have := hreached hcond
      omega
  | eog hn heog =>
    have hle : k ≤ n := by
      by_contra hlt
      exact hfirst.goesOn n (by omega) heog
    constructor
    · intro heq
      omega
    · intro hcond
      have := hreached hcond
      omega
  | length hn =>
    constructor
    · intro heq hlt
      omega
    · intro hcond
      have := hreached hcond
      omega

/-- The loop halts at the first stop exactly where the text ends with a stop
sequence there, or the tokens are used up. -/
theorem halts_at_stop_iff (stops : List Text) (max_tokens : ℕ) (prompt_tokens_est : ℤ)
    (h : llama.Answers messages fallback_prompt) :
    HaltsAtStop llama stops max_tokens
        (run_llama llama max_tokens stops messages fallback_prompt prompt_tokens_est fun _ => true) ↔
      ∀ k < max_tokens, FirstStop llama stops k → hit_stop (textAfter llama k) stops = true := by
  obtain ⟨prompt_tokens, hrun⟩ := run_outcome h stops max_tokens prompt_tokens_est
  constructor
  · intro hhalts k hk hfirst
    exact (hrun.halts_iff hfirst hk.le).mp (hhalts.halts k hk.le hfirst) hk
  · intro hcond
    refine ⟨fun k hk hfirst => ?_, hrun.sent, hrun.final⟩
    exact (hrun.halts_iff hfirst hk).mpr fun hlt => hcond k hlt hfirst

/-- The tokens of `strs`, and then the end of the generation. -/
def spelled (strs : List Text) : Llama where
  backend := .ok ()
  new_context := .ok ()
  new_message _ := true
  apply_chat_template _ := none
  str_to_token prompt := .ok prompt.length
  add_prompt := .ok ()
  decode_prompt := .ok ()
  sample i := match strs[i]? with
    | some str => .token (some str)
    | none => .eog
  add_token _ := .ok ()
  decode_token _ := .ok ()

theorem spelled_answers (strs : List Text) : (spelled strs).Answers [] [] := ⟨⟨0, rfl⟩, fun _ => rfl⟩

/-- A stop sequence that begins in one token and ends in the next. -/
theorem halts_across_tokens :
    HaltsAtStop (spelled [['o', 'k', 'E'], ['N', 'D'], ['!']]) [['E', 'N', 'D']] 8
        (run_llama (spelled [['o', 'k', 'E'], ['N', 'D'], ['!']]) 8 [['E', 'N', 'D']] [] [] 0
          fun _ => true) ↔
      ∀ k < 8, FirstStop (spelled [['o', 'k', 'E'], ['N', 'D'], ['!']]) [['E', 'N', 'D']] k →
        hit_stop (textAfter (spelled [['o', 'k', 'E'], ['N', 'D'], ['!']]) k) [['E', 'N', 'D']] = true :=
  halts_at_stop_iff _ 8 0 (spelled_answers _)

/-- A token that goes on behind the stop sequence. -/
theorem stop_inside_token_missed :
    ¬ HaltsAtStop (spelled [['x', ';', 'y'], ['z']]) [[';']] 8
      (run_llama (spelled [['x', ';', 'y'], ['z']]) 8 [[';']] [] [] 0 fun _ => true) := by
  intro h
  have hfirst : FirstStop (spelled [['x', ';', 'y'], ['z']]) [[';']] 1 := by
    refine ⟨?_, by decide, by decide⟩
    intro i hi heog
    obtain rfl : i = 0 := by omega
    cases heog
  have hsampled := h.halts 1 (by decide) hfirst
  exact absurd hsampled (by decide)

/-! ## What the client receives -/

theorem forward_final {others : List GenerateToken} {last : GenerateToken}
    (hothers : ∀ token ∈ others, token.is_final = false) (hlast : last.is_final = true) (i c : ℕ) :
    forward (fun _ => true) i c ((others ++ [last]).map .ok) =
      ((others ++ [last]).map .ok, .ok last.completion_tokens) := by
  induction others generalizing i c with
  | nil => simp [forward, hlast]
  | cons token others ih =>
    have htoken := hothers token List.mem_cons_self
    have hrest := ih (fun t ht => hothers t (List.mem_cons_of_mem _ ht)) (i + 1) token.completion_tokens
    simp only [List.cons_append, List.map_cons, forward, Bool.not_true, Bool.false_eq_true, if_false,
      htoken, hrest]

/-- The client receives what the loop sends, and the count of the final chunk is
what the request is recorded with. -/
theorem generate_real_delivers (params : GenerateParams) (prompt : Text) (prompt_tokens_est : ℤ)
    (h : llama.Answers (params.messages.map fun m => (m.role, m.content)) prompt) :
    ∃ sent last, FinalLast sent ∧ sent.getLast? = some last ∧
      generate_real (some llama) params prompt prompt_tokens_est (fun _ => true) (fun _ => true) =
        (sent.map .ok, .ok last.completion_tokens) := by
  obtain ⟨prompt_tokens, hrun⟩ := run_outcome h params.stop_sequences params.limit prompt_tokens_est
  obtain ⟨others, last, hsent, hlast, hothers⟩ := hrun.final
  refine ⟨others ++ [last], last, ⟨others, last, rfl, hlast, hothers⟩, by simp, ?_⟩
  simp only [generate_real, Generation.items, hrun.result, hsent, List.append_nil]
  exact forward_final hothers hlast 0 0

end ModelForge.LlamaGeneration
