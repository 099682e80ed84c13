import Mathlib.Data.List.Induction

/-!
# A map through the history of its calls

A map that is changed by calls which may be refused is described by what was asked and answered:
a key has the value of the last insertion of it that was done and that no call done for the same
key has followed. `held` computes that value along the history, `LastInsert` says it in words,
and `held_eq_some_iff` that they agree.

An implementation that tells keys apart only by `f` keeps a map on the images under `f`.
`held_mapKey` says for which histories this is the same map: no call may be for another key with
the same image.
-/

set_option autoImplicit false

namespace Nachos.Library

variable {κ κ' ν : Type}

/-- A call that puts a value under a key, or takes the key out. -/
inductive MapCall (κ ν : Type) where
  | insert (key : κ) (value : ν)
  | erase (key : κ)

namespace MapCall

def key : MapCall κ ν → κ
  | .insert key _ => key
  | .erase key => key

def mapKey (f : κ → κ') : MapCall κ ν → MapCall κ' ν
  | .insert key value => .insert (f key) value
  | .erase key => .erase (f key)

@[simp] theorem key_mapKey (f : κ → κ') (c : MapCall κ ν) : (c.mapKey f).key = f c.key := by
  cases c <;> rfl

end MapCall

/-- What `key` has after one call, if it had `v`: a call that is not done changes nothing. -/
def heldAfter [DecidableEq κ] (key : κ) (v : Option ν) : MapCall κ ν × Bool → Option ν
  | (.insert k x, true) => if k = key then some x else v
  | (.erase k, true) => if k = key then none else v
  | (_, false) => v

/-- What `key` has after a history, if it had `v` before. -/
def held [DecidableEq κ] (key : κ) (v : Option ν) (history : List (MapCall κ ν × Bool)) : Option ν :=
  history.foldl (heldAfter key) v

/-- The last call done for `key` has put `x` under it. -/
def LastInsert (history : List (MapCall κ ν × Bool)) (key : κ) (x : ν) : Prop :=
  ∃ before rest, history = before ++ (.insert key x, true) :: rest ∧
    ∀ c ∈ rest, c.2 = true → c.1.key ≠ key

theorem heldAfter_of_other [DecidableEq κ] {key : κ} (v : Option ν) {c : MapCall κ ν × Bool}
    (h : c.2 = true → c.1.key ≠ key) : heldAfter key v c = v := by
  obtain ⟨c, done⟩ := c
  cases done with
  | false => cases c <;> rfl
  | true =>
    cases c with
    | insert k x => exact if_neg (h rfl)
    | erase k => exact if_neg (h rfl)

theorem LastInsert.concat {history : List (MapCall κ ν × Bool)} {key : κ} {x : ν}
    (h : LastInsert history key x) {c : MapCall κ ν × Bool} (hc : c.2 = true → c.1.key ≠ key) :
    LastInsert (history ++ [c]) key x := by
  obtain ⟨before, rest, rfl, hrest⟩ := h
  refine ⟨before, rest ++ [c], by simp, fun e he => ?_⟩
  rcases List.mem_append.mp he with he | he
  · exact hrest e he
  · rw [List.mem_singleton.mp he]
    exact hc

/-- The last call of the history is the insertion, or it is not one done for the key. -/
theorem LastInsert.of_concat {history : List (MapCall κ ν × Bool)} {key : κ} {x : ν}
    {c : MapCall κ ν × Bool} (h : LastInsert (history ++ [c]) key x) :
    c = (.insert key x, true) ∨ LastInsert history key x ∧ (c.2 = true → c.1.key ≠ key) := by
  obtain ⟨before, rest, heq, hrest⟩ := h
  rcases List.eq_nil_or_concat rest with rfl | ⟨rest, e, rfl⟩
  · left
    exact (List.append_inj' heq rfl).2 |> List.singleton_inj.mp
  · right
    rw [List.concat_eq_append, ← List.cons_append, ← List.append_assoc] at heq
    obtain ⟨rfl, hce⟩ := List.append_inj' heq rfl
    rw [List.singleton_inj.mp hce]
    exact ⟨⟨before, rest, rfl, fun d hd => hrest d (by simp [hd])⟩, hrest e (by simp)⟩

/-- **`held` is the value of the last insertion.** -/
theorem held_eq_some_iff [DecidableEq κ] {key : κ} {x : ν} {history : List (MapCall κ ν × Bool)} :
    held key none history = some x ↔ LastInsert history key x := by
  -- by induction from the end of the history, since the last call decides
  induction history using List.reverseRecOn with
  | nil =>
    constructor
    · intro h
      cases h
    · rintro ⟨before, rest, heq, -⟩
      simp at heq
  | append_singleton history c ih =>
    have hstep : held key none (history ++ [c]) = heldAfter key (held key none history) c := by
      simp [held]
    rw [hstep]
    by_cases hc : c.2 = true → c.1.key ≠ key
    · rw [heldAfter_of_other _ hc, ih]
      refine ⟨fun h => h.concat hc, fun h => ?_⟩
      rcases h.of_concat with rfl | ⟨h, -⟩
      · exact absurd rfl (hc rfl)
      · exact h
    · push Not at hc
      obtain ⟨c, done⟩ := c
      obtain ⟨rfl, hkey⟩ := hc
      cases c with
      | insert k y =>
        have hk : k = key := hkey
        subst hk
        rw [heldAfter, if_pos rfl, Option.some.injEq]
        constructor
        · rintro rfl
          exact ⟨history, [], rfl, by simp⟩
        · intro h
          rcases h.of_concat with heq | ⟨-, hne⟩
          · cases heq
            rfl
          · exact absurd rfl (hne rfl)
      | erase k =>
        have hk : k = key := hkey
        subst hk
        rw [heldAfter, if_pos rfl]
        constructor
        · intro h
          cases h
        · intro h
          rcases h.of_concat with heq | ⟨-, hne⟩
          · cases heq
          · exact absurd rfl (hne rfl)

/-- **Keys that are told apart by `f`.** If no call is for another key with the image of `key`,
the map on images has for the image what the map on keys has for `key`. -/
theorem held_mapKey [DecidableEq κ] [DecidableEq κ'] (f : κ → κ') {key : κ} (v : Option ν)
    {history : List (MapCall κ ν × Bool)} (h : ∀ c ∈ history, f c.1.key = f key → c.1.key = key) :
    held (f key) v (history.map fun c => (c.1.mapKey f, c.2)) = held key v history := by
  induction history generalizing v with
  | nil => rfl
  | cons c history ih =>
    have hfirst : heldAfter (f key) v (c.1.mapKey f, c.2) = heldAfter key v c := by
      obtain ⟨c, done⟩ := c
      have hkey : f c.key = f key ↔ c.key = key :=
        ⟨h (c, done) List.mem_cons_self, fun heq => by rw [heq]⟩
      cases done with
      | false => cases c <;> rfl
      | true =>
        cases c with
        | insert k x => exact if_congr hkey rfl rfl
        | erase k => exact if_congr hkey rfl rfl
    have hrest := ih (heldAfter key v c) fun d hd => h d (List.mem_cons_of_mem _ hd)
    simp only [held, List.map_cons, List.foldl_cons, hfirst] at hrest ⊢
    exact hrest

end Nachos.Library
