import Mathlib.Data.List.Flatten

/-!
# A buffer that is emptied into messages

`Carries f sent waiting produced`: what the messages sent carry under `f`, followed by what waits in
the buffer, is what has been produced. Producing and sending keep it (`Carries.push`, `Carries.send`);
when nothing waits the messages carry all of it, in order and once (`Carries.delivered`).
-/

namespace Outbox
variable {σ β : Type}

def Carries (f : σ → List β) (sent : List σ) (waiting produced : List β) : Prop :=
  sent.flatMap f ++ waiting = produced

namespace Carries
variable {f : σ → List β} {sent : List σ} {waiting produced : List β}

theorem start (f : σ → List β) (waiting : List β) : Carries f [] waiting waiting := rfl

theorem push (h : Carries f sent waiting produced) (more : List β) :
    Carries f sent (waiting ++ more) (produced ++ more) := by
  unfold Carries at h ⊢
  rw [← List.append_assoc, h]

/-- A message that carries what waits. -/
theorem send (h : Carries f sent waiting produced) {m : σ} (hm : f m = waiting) :
    Carries f (sent ++ [m]) [] produced := by
  unfold Carries at h ⊢
  rw [List.flatMap_append, List.flatMap_singleton, hm, List.append_nil, h]

theorem delivered (h : Carries f sent [] produced) : sent.flatMap f = produced := by
  unfold Carries at h
  rwa [List.append_nil] at h

end Carries

/-- `P before m` for every message, `before` being what was sent up to it and with it. -/
def Each (P : List σ → σ → Prop) (sent : List σ) : Prop :=
  ∀ before m after, sent = before ++ m :: after → P (before ++ [m]) m

namespace Each
variable {P : List σ → σ → Prop} {sent : List σ}

theorem nil : Each P [] := fun before m after h => by simp at h

theorem send (h : Each P sent) {m : σ} (hm : P (sent ++ [m]) m) : Each P (sent ++ [m]) := by
  intro before x after he
  rcases List.eq_nil_or_concat after with rfl | ⟨rest, last, rfl⟩
  · obtain ⟨rfl, hx⟩ := List.append_inj' he rfl
    obtain rfl : m = x := by simpa using hx
    exact hm
  · have he' : sent ++ [m] = (before ++ x :: rest) ++ [last] := by simpa using he
    obtain ⟨hs, -⟩ := List.append_inj' he' rfl
    exact h before x rest hs

end Each

end Outbox
