import ModelForge.StopSequences

set_option autoImplicit false

/-!
# The echo reply

Without weights the engine sends the last user message back, a character at a
time, until a stop sequence, the limit or the end of the reply.
-/
namespace ModelForge.EchoGeneration
open StopSequences

def lastUser (messages : List ChatMessage) : Text :=
  ((messages.reverse.find? fun m => m.role = "user".toList).map ChatMessage.content).getD
    "Hello".toList

def echoReply (params : GenerateParams) : Text :=
  "ModelForge echo (".toList ++ params.model_id ++ "): ".toList ++ lastUser params.messages

/-- The loop over the characters that are left, when `i` have been produced:
what is sent, and the count that is returned. -/
def echoFrom (limit : ℕ) (stops : List Text) (prompt_tokens : ℤ) (tx : ℕ → Bool) :
    ℕ → Text → Text → List GenerateToken × ℕ
  | i, _, [] => (deliver tx i ⟨[], true, prompt_tokens, i, "stop"⟩, i)
  | i, produced, ch :: left =>
    if limit ≤ i then (deliver tx i ⟨[], true, prompt_tokens, i, "length"⟩, i)
    else
      let produced := produced ++ [ch]
      if hit_stop produced stops then
        (deliver tx i ⟨[ch], true, prompt_tokens, i + 1, "stop"⟩, i + 1)
      else if tx i then
        let rest := echoFrom limit stops prompt_tokens tx (i + 1) produced left
        (⟨[ch], false, prompt_tokens, i + 1, ""⟩ :: rest.1, rest.2)
      else ([], i + 1)

def generate_echo (params : GenerateParams) (prompt_tokens : ℤ) (tx : ℕ → Bool) :
    List GenerateToken × ℕ :=
  echoFrom params.limit params.stop_sequences prompt_tokens tx 0 [] (echoReply params)

/-! ## Where the reply ends -/

/-- The shortest prefix of the reply that ends with a stop sequence. -/
structure ShortestStop (reply : Text) (stops : List Text) (p : Text) : Prop where
  isPrefix : p <+: reply
  hit : hit_stop p stops = true
  shortest : ∀ q, q <+: reply → hit_stop q stops = true → p.length ≤ q.length

/-- After how many characters a reply ends, and the reason that is given. -/
inductive EndsAt (reply : Text) (stops : List Text) (limit : ℕ) : ℕ → String → Prop where
  | stop {n : ℕ} (hlimit : n ≤ limit) (hlength : n ≤ reply.length)
      (hhit : hit_stop (reply.take n) stops = true) : EndsAt reply stops limit n "stop"
  | length (hlength : limit < reply.length) (hnone : hit_stop (reply.take limit) stops = false) :
      EndsAt reply stops limit limit "length"
  | reply (hlimit : reply.length ≤ limit) (hnone : hit_stop reply stops = false) :
      EndsAt reply stops limit reply.length "stop"

/-- What is sent of a reply from its `i`-th character on. -/
structure Echoed (reply : Text) (stops : List Text) (limit : ℕ) (prompt_tokens : ℤ) (i n : ℕ)
    (reason : String) (out : List GenerateToken × ℕ) : Prop where
  ends : EndsAt reply stops limit n reason
  before : ∀ j < n, hit_stop (reply.take j) stops = false
  reached : i ≤ n
  text : out.1.flatMap GenerateToken.delta = (reply.drop i).take (n - i)
  returned : out.2 = n
  final : ∃ others delta, out.1 = others ++ [⟨delta, true, prompt_tokens, n, reason⟩] ∧
    ∀ token ∈ others, token.is_final = false

variable {reply : Text} {stops : List Text} {limit : ℕ} {prompt_tokens : ℤ} {i : ℕ}

/-- By induction on the characters that are left. -/
theorem echoFrom_echoed (left : Text) (hleft : reply.drop i = left) (hlimit : i ≤ limit)
    (hlength : i ≤ reply.length) (hnone : ∀ j ≤ i, hit_stop (reply.take j) stops = false) :
    ∃ n reason, Echoed reply stops limit prompt_tokens i n reason
      (echoFrom limit stops prompt_tokens (fun _ => true) i (reply.take i) left) := by
  induction left generalizing i with
  | nil =>
    have hi : i = reply.length := le_antisymm hlength (List.drop_eq_nil_iff.mp hleft)
    subst hi
    refine ⟨_, _, .reply hlimit (by simpa using hnone reply.length le_rfl), fun j hj => hnone j hj.le,
      le_rfl, ?_, rfl, [], [], rfl, by simp⟩
    simp [echoFrom, deliver]
  | cons ch left ih =>
    have hlt : i < reply.length := by
      by_contra hge
      rw [List.drop_eq_nil_iff.mpr (by omega)] at hleft
      cases hleft
    have hnext : reply.drop (i + 1) = left := by
      rw [← List.drop_drop, hleft]
      rfl
    have htake : reply.take i ++ [ch] = reply.take (i + 1) := by
      have hget : reply[i]? = some ch := by
        rw [← List.head?_drop, hleft]
        rfl
      rw [List.take_add_one, hget]
      rfl
    by_cases hfull : limit ≤ i
    · have hi : i = limit := le_antisymm hlimit hfull
      subst hi
      refine ⟨_, _, .length hlt (hnone i le_rfl), fun j hj => hnone j hj.le, le_rfl, ?_, ?_, [], [], ?_, by simp⟩
      all_goals simp [echoFrom, deliver]
    · cases hhit : hit_stop (reply.take (i + 1)) stops with
      | true =>
        have hsent : echoFrom limit stops prompt_tokens (fun _ => true) i (reply.take i) (ch :: left) =
            ([⟨[ch], true, prompt_tokens, i + 1, "stop"⟩], i + 1) := by
          simp [echoFrom, hfull, htake, hhit, deliver]
        rw [hsent]
        refine ⟨i + 1, _, .stop (by omega) hlt hhit, fun j hj => hnone j (by omega), by omega, ?_,
          rfl, [], [ch], rfl, by simp⟩
        simp [hleft]
      | false =>
        let rest := echoFrom limit stops prompt_tokens (fun _ => true) (i + 1) (reply.take (i + 1)) left
        have hsent : echoFrom limit stops prompt_tokens (fun _ => true) i (reply.take i) (ch :: left) =
            (⟨[ch], false, prompt_tokens, i + 1, ""⟩ :: rest.1, rest.2) := by
          simp [echoFrom, hfull, htake, hhit, rest]
        have hnone' : ∀ j ≤ i + 1, hit_stop (reply.take j) stops = false := by
          intro j hj
          by_cases heq : j = i + 1
          · rw [heq, hhit]
          · exact hnone j (by omega)
        obtain ⟨n, reason, hrest⟩ := ih hnext (by omega) hlt hnone'
        obtain ⟨others, delta, hothers, hopen⟩ := hrest.final
        have hreached := hrest.reached
        rw [hsent]
        refine ⟨n, reason, hrest.ends, hrest.before, by omega, ?_, hrest.returned, ?_⟩
        · rw [List.flatMap_cons, hrest.text, hleft, hnext, show n - i = n - (i + 1) + 1 by omega]
          rfl
        · refine ⟨_ :: others, delta, by rw [hothers]; rfl, ?_⟩
          simpa using hopen

theorem generate_echo_echoed (params : GenerateParams) (prompt_tokens : ℤ) :
    ∃ n reason, Echoed (echoReply params) params.stop_sequences params.limit prompt_tokens 0 n reason
      (generate_echo params prompt_tokens fun _ => true) := by
  apply echoFrom_echoed (i := 0) (echoReply params) rfl (Nat.zero_le _) (Nat.zero_le _)
  intro j hj
  rw [Nat.le_zero.mp hj]
  exact hit_stop_nil _

/-! ## What is asked of a reply -/

structure EchoesReply (reply : Text) (stops : List Text) (limit : ℕ) (sent : List GenerateToken) :
    Prop where
  final : FinalLast sent
  stopped : ∀ p, ShortestStop reply stops p → p.length ≤ limit →
    sent.flatMap GenerateToken.delta = p
  truncated : (∀ p, ShortestStop reply stops p → limit < p.length) →
    sent.flatMap GenerateToken.delta = reply.take limit
  last : ∃ last, sent.getLast? = some last ∧
    last.completion_tokens = (sent.flatMap GenerateToken.delta).length ∧
    (last.finish_reason = "length" ↔ limit < reply.length ∧
      ∀ p, p <+: reply → p.length ≤ limit → hit_stop p stops = false)

theorem eq_take_length {p : Text} (h : p <+: reply) : p = reply.take p.length :=
  List.prefix_iff_eq_take.mp h

variable {n : ℕ} {reason : String} {out : List GenerateToken × ℕ}

theorem EndsAt.le_length (h : EndsAt reply stops limit n reason) : n ≤ reply.length := by
  cases h with
  | stop _ hlength => exact hlength
  | length hlength => exact hlength.le
  | reply => exact le_rfl

theorem Echoed.text_eq (h : Echoed reply stops limit prompt_tokens 0 n reason out) :
    out.1.flatMap GenerateToken.delta = reply.take n := by
  rw [h.text, List.drop_zero, Nat.sub_zero]

/-- A prefix that ends with a stop sequence is at least as long as what is sent. -/
theorem Echoed.le_of_hit (h : Echoed reply stops limit prompt_tokens 0 n reason out) {p : Text}
    (hbegins : p <+: reply) (hhit : hit_stop p stops = true) : n ≤ p.length := by
  by_contra hlt
  have hnone := h.before p.length (by omega)
  rw [← eq_take_length hbegins, hhit] at hnone
  cases hnone

theorem Echoed.shortest (h : Echoed reply stops limit prompt_tokens 0 n reason out)
    (hhit : hit_stop (reply.take n) stops = true) : ShortestStop reply stops (reply.take n) where
  isPrefix := List.take_prefix _ _
  hit := hhit
  shortest _ hq hqhit := (List.length_take_le _ _).trans (h.le_of_hit hq hqhit)

theorem Echoed.stopped (h : Echoed reply stops limit prompt_tokens 0 n reason out) {p : Text}
    (hp : ShortestStop reply stops p) (hlimit : p.length ≤ limit) : reply.take n = p := by
  have hle := h.le_of_hit hp.isPrefix hp.hit
  have hlength := hp.isPrefix.length_le
  have htake := eq_take_length hp.isPrefix
  have hn : n = p.length := by
    cases h.ends with
    | stop _ hn hhit =>
      have := hp.shortest _ (List.take_prefix n reply) hhit
      rw [List.length_take, Nat.min_eq_left hn] at this
      omega
    | length => omega
    | reply => omega
  rw [hn]
  exact htake.symm

theorem Echoed.truncated (h : Echoed reply stops limit prompt_tokens 0 n reason out)
    (hnone : ∀ p, ShortestStop reply stops p → limit < p.length) : reply.take n = reply.take limit := by
  cases h.ends with
  | stop hlimit hlength hhit =>
    have := hnone _ (h.shortest hhit)
    rw [List.length_take] at this
    omega
  | length => rfl
  | reply hlimit => rw [List.take_length, List.take_of_length_le hlimit]

theorem Echoed.length_iff (h : Echoed reply stops limit prompt_tokens 0 n reason out) :
    reason = "length" ↔ limit < reply.length ∧
      ∀ p, p <+: reply → p.length ≤ limit → hit_stop p stops = false := by
  cases h.ends with
  | stop hlimit hlength hhit =>
    refine iff_of_false (by decide) fun ⟨_, hnone⟩ => ?_
    have := hnone (reply.take n) (List.take_prefix _ _) (by rw [List.length_take]; omega)
    rw [hhit] at this
    cases this
  | length hlength hnone =>
    refine iff_of_true rfl ⟨hlength, fun p hp hlimit => ?_⟩
    rw [eq_take_length hp]
    rcases Nat.lt_or_eq_of_le hlimit with hlt | heq
    · exact h.before _ hlt
    · rw [heq]
      exact hnone
  | reply hlimit => exact iff_of_false (by decide) fun ⟨hlt, _⟩ => by omega

/-- For every request, and every receiver that stays open. -/
theorem echoes_reply (params : GenerateParams) (prompt_tokens : ℤ) :
    EchoesReply (echoReply params) params.stop_sequences params.limit
      (generate_echo params prompt_tokens fun _ => true).1 := by
  obtain ⟨n, reason, h⟩ := generate_echo_echoed params prompt_tokens
  obtain ⟨others, delta, hsent, hothers⟩ := h.final
  have hlength : ((echoReply params).take n).length = n := by
    rw [List.length_take, Nat.min_eq_left h.ends.le_length]
  constructor
  · exact ⟨others, _, hsent, rfl, hothers⟩
  · intro p hp hlimit
    rw [h.text_eq, h.stopped hp hlimit]
  · intro hnone
    rw [h.text_eq, h.truncated hnone]
  · refine ⟨_, by rw [hsent]; exact List.getLast?_concat, ?_, h.length_iff⟩
    rw [h.text_eq, hlength]

/-- The count that the request is recorded with. -/
theorem returned_eq (params : GenerateParams) (prompt_tokens : ℤ) :
    (generate_echo params prompt_tokens fun _ => true).2 =
      ((generate_echo params prompt_tokens fun _ => true).1.flatMap GenerateToken.delta).length := by
  obtain ⟨n, reason, h⟩ := generate_echo_echoed params prompt_tokens
  rw [h.returned, h.text_eq, List.length_take, Nat.min_eq_left h.ends.le_length]

example : (generate_echo ⟨['m'], [⟨"user".toList, ['a', ';', 'b']⟩], 40, [[';']]⟩ 3 fun _ => true).1.getLast? =
    some ⟨[';'], true, 3, 23, "stop"⟩ := by decide

end ModelForge.EchoGeneration
