import Mathlib.Data.List.Infix

set_option autoImplicit false

/-!
# Stop sequences

What both generation loops of the engine test after each piece of text, and the
chunks that they send.
-/
namespace ModelForge.StopSequences

/-- `String`, by its characters. -/
abbrev Text := List Char

def hit_stop (text : Text) (stops : List Text) : Bool :=
  stops.any fun s => !s.isEmpty && s.isSuffixOf text

structure ChatMessage where
  role : Text
  content : Text

/-- The temperature and the nucleus are the sampler's. -/
structure GenerateParams where
  model_id : Text
  messages : List ChatMessage
  max_tokens : ℤ
  stop_sequences : List Text

/-- `params.max_tokens.max(1) as usize` -/
def GenerateParams.limit (params : GenerateParams) : ℕ := (max params.max_tokens 1).toNat

structure GenerateToken where
  delta : Text
  is_final : Bool
  prompt_tokens : ℤ
  completion_tokens : ℕ
  finish_reason : String
deriving DecidableEq

/-- The `i`-th message reaches the receiver unless it was closed. -/
def deliver (tx : ℕ → Bool) (i : ℕ) (token : GenerateToken) : List GenerateToken :=
  if tx i then [token] else []

/-- Somewhere in the text stands a stop sequence. -/
def ContainsStop (text : Text) (stops : List Text) : Prop := ∃ s ∈ stops, s ≠ [] ∧ s <:+: text

instance (text : Text) (stops : List Text) : Decidable (ContainsStop text stops) :=
  inferInstanceAs (Decidable (∃ s ∈ stops, s ≠ [] ∧ s <:+: text))

theorem hit_stop_iff (text : Text) (stops : List Text) :
    hit_stop text stops = true ↔ ∃ s ∈ stops, s ≠ [] ∧ s <:+ text := by
  simp [hit_stop, List.any_eq_true]

@[simp] theorem hit_stop_nil (stops : List Text) : hit_stop [] stops = false := by
  rw [Bool.eq_false_iff, ne_eq, hit_stop_iff]
  intro ⟨s, _, hne, hsuffix⟩
  exact hne (List.suffix_nil.mp hsuffix)

theorem containsStop_of_hit {text : Text} {stops : List Text} (h : hit_stop text stops = true) :
    ContainsStop text stops := by
  obtain ⟨s, hs, hne, hsuffix⟩ := (hit_stop_iff text stops).mp h
  exact ⟨s, hs, hne, hsuffix.isInfix⟩

/-- One final chunk, behind all others. -/
def FinalLast (sent : List GenerateToken) : Prop :=
  ∃ others last, sent = others ++ [last] ∧ last.is_final = true ∧
    ∀ token ∈ others, token.is_final = false

end ModelForge.StopSequences
