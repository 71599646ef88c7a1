import RegexSearch.Pattern.Chains

/-! The fold over the slots of a set succeeds just where its elements fall into chains, and joins each chain into one member. -/
namespace RegexSearch.Slot

theorem token?_eq_some {slot : Slot} {t : Token} : slot.token? = some t ↔ slot = token t := by
  cases slot <;> simp [token?]

theorem token?_eq_none {slot : Slot} : slot.token? = none ↔ ∃ offset, slot = conjunction offset := by
  cases slot <;> simp [token?]

theorem map_eq_map_some {α β : Type} {f : α → Option β} {g : β → α} (h : ∀ {x y}, f x = some y ↔ x = g y) {xs : List α}
    {ys : List β} : xs.map f = ys.map some ↔ xs = ys.map g := by
  induction xs generalizing ys with
  | nil => cases ys <;> simp
  | cons x xs ih => cases ys <;> simp [h, ih]

theorem map_token?_eq_some {slots : List Slot} {ts : List Token} :
    slots.map token? = ts.map some ↔ slots = ts.map token := map_eq_map_some token?_eq_some

theorem map_token?_eq_singleton {slots : List Slot} {t : Token} : slots.map token? = [some t] ↔ slots = [token t] :=
  @map_token?_eq_some slots [t]

theorem map_token?_eq_bracketed {slots : List Slot} {t u : Token} {xs : List (Option Token)} :
    slots.map token? = some t :: (xs ++ [some u]) ↔
      ∃ inside : List Slot, slots = token t :: (inside ++ [token u]) ∧ inside.map token? = xs := by
  constructor
  · intro h
    obtain ⟨left, more, rfl, hleft, hmore⟩ := List.map_eq_cons_iff.1 h
    obtain ⟨inside, last, rfl, hinside, hlast⟩ := List.map_eq_append_iff.1 hmore
    rw [token?_eq_some.1 hleft, map_token?_eq_singleton.1 hlast]
    exact ⟨inside, rfl, hinside⟩
  · rintro ⟨inside, rfl, rfl⟩
    rw [List.map_cons, List.map_append]
    rfl

theorem foldConjunctions_chain {t : Token} {more : List Token} {slots : List Slot}
    (h : slots.map token? = more.flatMap fun u => [none, some u]) (members : List Token) (rest : List Slot) :
    foldConjunctions (t :: members) (slots ++ rest) = foldConjunctions (t.meet more :: members) rest := by
  induction more generalizing t slots with
  | nil =>
    obtain rfl : slots = [] := by simpa using h
    rfl
  | cons u more ih =>
    obtain ⟨first, tail, rfl, hfirst, htail⟩ := List.map_eq_cons_iff.1 h
    obtain ⟨second, slots, rfl, hsecond, hslots⟩ := List.map_eq_cons_iff.1 htail
    obtain ⟨offset, rfl⟩ := token?_eq_none.1 hfirst
    obtain rfl := token?_eq_some.1 hsecond
    rw [List.cons_append, List.cons_append, foldConjunctions]
    exact ih hslots

theorem foldConjunctions_of_chains {slots : List Slot} {xs : List (Option Token)} {chains : List (Token × List Token)}
    (h : Chains xs chains) (hslots : slots.map token? = xs) (members : List Token) :
    foldConjunctions members slots = .ok (members.reverse ++ Chains.members chains) := by
  induction h generalizing slots members with
  | nil =>
    obtain rfl : slots = [] := by simpa using hslots
    simp [foldConjunctions, Chains.members]
  | cons t more h ih =>
    obtain ⟨chain, rest, rfl, hchain, hrest⟩ := List.map_eq_append_iff.1 hslots
    obtain ⟨head, tail, rfl, hhead, htail⟩ := List.map_eq_cons_iff.1 hchain
    obtain rfl := token?_eq_some.1 hhead
    rw [List.cons_append, foldConjunctions, foldConjunctions_chain htail, ih hrest]
    simp [Chains.members]

-- While the fold runs, its latest member is the chain in progress, which the slots still to come may prolong.
theorem chains_of_foldConjunctions {t : Token} {before members : List Token} {slots : List Slot}
    (h : foldConjunctions (t :: before) slots = .ok members) :
    ∃ more rest chains, slots.map token? = (more.flatMap fun u => [none, some u]) ++ rest ∧ Chains rest chains ∧
      members = before.reverse ++ t.meet more :: Chains.members chains := by
  generalize hopen : t :: before = opened at h
  fun_induction foldConjunctions opened slots generalizing t before with
  | case1 =>
    subst hopen
    obtain rfl : _ = members := by simpa using h
    exact ⟨[], [], [], rfl, .nil, by simp [Token.meet, Chains.members]⟩
  | case2 opened u slots ih =>
    subst hopen
    obtain ⟨more, rest, chains, hslots, hchains, rfl⟩ := ih rfl h
    refine ⟨[], u.chained more ++ rest, (u, more) :: chains, ?_, .cons u more hchains, ?_⟩
    · simp [hslots, token?, Token.chained]
    · simp [Token.meet, Chains.members]
  | case3 left opened offset right slots ih =>
    cases hopen
    obtain ⟨more, rest, chains, hslots, hchains, rfl⟩ := ih rfl h
    refine ⟨right :: more, rest, chains, ?_, hchains, rfl⟩
    simp [hslots, token?]
  | case4 => contradiction

theorem foldConjunctions_eq_ok_iff {slots : List Slot} {members : List Token} :
    foldConjunctions [] slots = .ok members ↔
      ∃ chains, Chains (slots.map token?) chains ∧ members = Chains.members chains := by
  constructor
  · intro h
    match slots, h with
    | [], h =>
      obtain rfl : [] = members := by simpa [foldConjunctions] using h
      exact ⟨[], .nil, rfl⟩
    | token t :: slots, h =>
      obtain ⟨more, rest, chains, hslots, hchains, rfl⟩ := chains_of_foldConjunctions h
      refine ⟨(t, more) :: chains, ?_, rfl⟩
      have split : (token t :: slots).map token? = t.chained more ++ rest := by
        rw [List.map_cons, hslots]
        rfl
      rw [split]
      exact .cons t more hchains
    | conjunction offset :: slots, h =>
      simp [foldConjunctions] at h
  · rintro ⟨chains, hchains, rfl⟩
    exact foldConjunctions_of_chains hchains rfl []

end RegexSearch.Slot
