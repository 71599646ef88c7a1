import RegexSearch.Pattern.Scan
import RegexSearch.Proofs.Derivations

/-! What the rest of a pattern makes of a draft, and how the draft changes on the way past a character or a literal. -/
namespace RegexSearch

namespace Sign

theorem ofChar_eq_literal {c : Char} (h : c ∉ metacharacters) : ofChar c = literal := by
  simp only [metacharacters, List.mem_cons, List.not_mem_nil, or_false, not_or] at h
  simp only [ofChar, h, if_false]

theorem ofChar_char {op : Operator} (h : op ≠ .openParen) (k : op ≠ .closeParen) : ofChar op.char = operator op := by
  cases op with
  | openParen | closeParen => contradiction
  | bar | star | plus | optional => rfl

end Sign

namespace Scan

theorem structural_eq_ok {d d' : Draft} {start : Nat} {change : Except SyntaxError Draft} (offset : Nat)
    (h : change = .ok d') :
    structural ⟨d, start, none, none⟩ offset change = .ok ⟨d', start, none, none⟩ := by
  rw [h]
  rfl

def outcome (s : Scan) (text : List Char) : Except SyntaxError Draft := Pattern.scanFrom s text >>= finish

theorem outcome_cons (s : Scan) (c : Char) (text : List Char) :
    s.outcome (c :: text) = s.step c >>= fun t => t.outcome text := by
  unfold outcome Pattern.scanFrom
  rw [List.foldlM_cons, bind_assoc]

theorem outcome_cons_of_held {s : Scan} (hheld : s.held? = none) (c : Char) (text : List Char) :
    s.outcome (c :: text) = s.read s.offset c >>= fun t => outcome { t with offset := s.offset + 1 } text := by
  rw [outcome_cons, step, hheld]
  dsimp only
  rw [bind_assoc]
  rfl

theorem outcome_cons_of_read {s t : Scan} {c : Char} (hheld : s.held? = none) (h : s.read s.offset c = .ok t)
    (text : List Char) : s.outcome (c :: text) = outcome { t with offset := s.offset + 1 } text := by
  rw [outcome_cons_of_held hheld, h]
  rfl

theorem literal_eq_ok {s t : Scan} {offset : Nat} {c : Char} (h : s.literal offset c = .ok t) :
    t.offset = s.offset ∧ t.held? = s.held? := by
  unfold literal at h
  split at h
  · obtain rfl := Except.ok.inj h
    exact ⟨rfl, rfl⟩
  · obtain ⟨token, -, h⟩ := bind_eq_ok_iff.1 h
    split_ifs at h
    obtain rfl := Except.ok.inj h
    exact ⟨rfl, rfl⟩

/-- A `&` that no other one follows is read as a literal, late. -/
theorem outcome_of_ampersand {s : Scan} {offset : Nat} {rest : List Char} (hheld : s.held? = some (.ampersand offset))
    (hrest : rest.head? ≠ some '&') : s.outcome rest = s.resume.literal offset '&' >>= fun t => t.outcome rest := by
  cases rest with
  | nil =>
    have hrelease : s.release = s.resume.literal offset '&' := by
      unfold release
      rw [hheld]
    show s.finish = _
    rw [finish, hrelease]
    cases hliteral : s.resume.literal offset '&' with
    | error e => rfl
    | ok t =>
      have hsettled : t.release = .ok t := by
        unfold release
        rw [(literal_eq_ok hliteral).2]
        rfl
      show _ = t.finish
      rw [finish, hsettled]
  | cons c rest =>
    have hc : c ≠ '&' := by simpa using hrest
    have hstep : s.step c = s.resume.literal offset '&' >>= fun t => t.step c := by
      unfold step
      rw [hheld]
      dsimp only
      rw [if_neg hc]
      refine bind_congr_ok fun t hliteral => ?_
      obtain ⟨hoffset, hnext⟩ := literal_eq_ok hliteral
      rw [hnext, hoffset]
      rfl
    rw [outcome_cons, hstep, bind_assoc]
    simp only [outcome_cons]

end Scan

namespace Draft
open Pattern

variable {d d' : Draft} {length : Nat} {range? : Option PendingRange} {text rest : List Char} {c lo : Char}

/-- Reads the rest of a pattern of `length` characters. -/
def resume (d : Draft) (range? : Option PendingRange) (length : Nat) (text : List Char) : Except SyntaxError Draft :=
  Scan.outcome ⟨d, length - text.length, range?, none⟩ text

theorem resume_nil (d : Draft) (length : Nat) : d.resume none length [] = .ok d := rfl

theorem resume_cons {range'? : Option PendingRange} (hlen : text.length < length)
    (h : Scan.read ⟨d, length - (text.length + 1), range?, none⟩ (length - (text.length + 1)) c =
      .ok ⟨d', length - (text.length + 1), range'?, none⟩) :
    d.resume range? length (c :: text) = d'.resume range'? length text := by
  have hoffset : length - (text.length + 1) + 1 = length - text.length := by omega
  unfold resume
  rw [List.length_cons, Scan.outcome_cons_of_read rfl h, ← hoffset]

theorem resume_ampersand (hset : d.inSet = true) : d.resume range? length ('&' :: text) =
    Scan.outcome ⟨d, length - (text.length + 1) + 1, range?, some (.ampersand (length - (text.length + 1)))⟩ text := by
  have hheld : Scan.read ⟨d, length - (text.length + 1), range?, none⟩ (length - (text.length + 1)) '&' =
      .ok ⟨d, length - (text.length + 1), range?, some (.ampersand (length - (text.length + 1)))⟩ := by
    show (if d.inSet then _ else _) = _
    rw [hset]
    rfl
  exact Scan.outcome_cons_of_read rfl hheld text

theorem resume_conjunction (hset : d.inSet = true) (hlen : text.length + 2 ≤ length) :
    d.resume none length ('&' :: '&' :: text) =
      (d.push (.conjunction (length - (text.length + 2)))).resume none length text := by
  have hoffset : length - (text.length + 2) + 2 = length - text.length := by omega
  rw [resume_ampersand hset, Scan.outcome_cons]
  unfold resume
  rw [← hoffset]
  rfl

theorem resume_eq_error {e : SyntaxError}
    (h : Scan.read ⟨d, length - (text.length + 1), range?, none⟩ (length - (text.length + 1)) c = .error e) :
    d.resume range? length (c :: text) = .error e := by
  unfold resume
  rw [Scan.outcome_cons_of_held rfl]
  dsimp only [List.length_cons]
  rw [h]
  rfl

theorem resume_cons_literal (hlen : rest.length < length)
    (hread : ∀ o, Scan.read ⟨d, o, range?, none⟩ o c = Scan.literal ⟨d, o, range?, none⟩ o c) :
    d.resume range? length (c :: rest) =
      Scan.literal ⟨d, length - (rest.length + 1), range?, none⟩ (length - (rest.length + 1)) c >>= fun t =>
        Scan.outcome { t with offset := length - rest.length } rest := by
  have hoffset : length - (rest.length + 1) + 1 = length - rest.length := by omega
  unfold resume
  rw [Scan.outcome_cons_of_held rfl, ← hoffset]
  dsimp only [List.length_cons]
  rw [hread]

-- A `&` is held until the next character shows that it is a literal, so that case reads one character further.
theorem exists_resume_eq_literal {first : Bool} (h : Literal d.inSet first text c rest)
    (hfirst : first = false → d.negateSet? = none) (hlen : text.length ≤ length) :
    ∃ k, d.resume range? length text = Scan.literal ⟨d, k, range?, none⟩ (length - text.length) c >>= fun t =>
      Scan.outcome { t with offset := length - rest.length } rest := by
  generalize hset : d.inSet = inSet at h
  cases h with
  | plain h =>
    refine ⟨_, resume_cons_literal hlen fun o => ?_⟩
    rw [Scan.read, Sign.ofChar_eq_literal h]
  | ampersand =>
    have hsign : Sign.ofChar '&' = .ampersand := rfl
    refine ⟨_, resume_cons_literal hlen fun o => ?_⟩
    rw [Scan.read, hsign]
    dsimp only
    rw [hset]
    rfl
  | caretInSet =>
    have hsign : Sign.ofChar '^' = .caret := rfl
    refine ⟨_, resume_cons_literal hlen fun o => ?_⟩
    rw [Scan.read, hsign]
    dsimp only
    rw [hfirst rfl, hset]
    rfl
  | escaped =>
    rw [List.length_cons, List.length_cons] at hlen
    have hoffset : length - (rest.length + 2) + 2 = length - rest.length := by omega
    refine ⟨length - (rest.length + 2) + 1, ?_⟩
    unfold resume
    rw [List.length_cons, List.length_cons, Scan.outcome_cons_of_read rfl rfl, Scan.outcome_cons, ← hoffset]
    dsimp only [Scan.step, Scan.resume]
    rw [bind_assoc]
    rfl
  | ampersandInSet h =>
    rw [List.length_cons] at hlen
    have hoffset : length - (rest.length + 1) + 1 = length - rest.length := by omega
    refine ⟨length - (rest.length + 1) + 1, ?_⟩
    rw [resume_ampersand hset, Scan.outcome_of_ampersand rfl h, List.length_cons, ← hoffset]
    refine bind_congr_ok fun t ht => ?_
    have hstate : t.offset = length - (rest.length + 1) + 1 := (Scan.literal_eq_ok ht).1
    rw [← hstate]

theorem resume_literal {first : Bool} (h : Literal d.inSet first text c rest)
    (hfirst : first = false → d.negateSet? = none) (hlen : text.length ≤ length)
    (hread : ∀ o k, Scan.literal ⟨d, k, range?, none⟩ o c = .ok ⟨d', k, none, none⟩) :
    d.resume range? length text = d'.resume none length rest := by
  obtain ⟨k, hresume⟩ : ∃ k, d.resume range? length text = _ := exists_resume_eq_literal h hfirst hlen
  rw [hresume, hread]
  rfl

theorem resume_literal_eq_error {first : Bool} {e : SyntaxError} (h : Literal d.inSet first text c rest)
    (hfirst : first = false → d.negateSet? = none) (hlen : text.length ≤ length)
    (hread : ∀ k, Scan.literal ⟨d, k, range?, none⟩ (length - text.length) c = .error e) :
    d.resume range? length text = .error e := by
  obtain ⟨k, hresume⟩ := exists_resume_eq_literal h hfirst hlen
  rw [hresume, hread]
  rfl

/-- A draft with more slots, first one first. -/
def extend (d : Draft) (slots : List Slot) : Draft := { d with slots := slots.reverse ++ d.slots }

theorem negateSet?_of_ne_nil (h : d.slots ≠ []) : d.negateSet? = none := by
  unfold negateSet?
  split
  · contradiction
  · rfl

theorem resume_emit {first : Bool} (h : Literal d.inSet first text c rest) (hfirst : first = false → d.negateSet? = none)
    (hlen : text.length ≤ length) : d.resume none length text = (d.emit (.literal c)).resume none length rest :=
  resume_literal h hfirst hlen fun _ _ => rfl

theorem resume_range {first : Bool} {mid : List Char} (h : Literal d.inSet first text lo ('-' :: mid))
    (k : Literal d.inSet false mid c rest) (lt : lo < c) (hfirst : first = false → d.negateSet? = none)
    (hlen : text.length ≤ length) : d.resume none length text = (d.emit (.range lo c)).resume none length rest := by
  have lower := h.length_lt
  have hmid : mid.length < length := by
    rw [List.length_cons] at lower
    omega
  have hread (o k : Nat) : Scan.literal ⟨d.emit (.literal lo), k, some ⟨lo, length - (mid.length + 1), false⟩, none⟩ o c =
      .ok ⟨d.emit (.range lo c), k, none, none⟩ := by
    have htoken : Scan.rangeToken lo c o = .ok (.range lo c) := by
      unfold Scan.rangeToken Token.range?
      rw [if_pos lt]
    show (Scan.rangeToken lo c o >>= _) = _
    rw [htoken]
    rfl
  have hnext : (d.emit (.literal lo)).negateSet? = none := negateSet?_of_ne_nil (List.cons_ne_nil _ _)
  calc d.resume none length text = (d.emit (.literal lo)).resume none length ('-' :: mid) := resume_emit h hfirst hlen
    _ = (d.emit (.literal lo)).resume (some ⟨lo, length - (mid.length + 1), false⟩) length mid := resume_cons hmid rfl
    _ = (d.emit (.range lo c)).resume none length rest := resume_literal k (fun _ => hnext) (Nat.le_of_lt hmid) hread

theorem resume_literals {cs : List Char} (h : Literals text cs rest) (hset : d.inSet = false)
    (hnext : d.negateSet? = none) (hlen : text.length ≤ length) :
    d.resume none length text = (d.extend (cs.map fun c => .token (.literal c))).resume none length rest := by
  induction h generalizing d with
  | nil => rfl
  | @cons text mid rest cs c h k ih =>
    have hmid := Nat.le_of_lt (Nat.lt_of_lt_of_le h.length_lt hlen)
    have houtside : (d.emit (.literal c)).inSet = false := hset
    have hemit : (d.emit (.literal c)).negateSet? = none := negateSet?_of_ne_nil (List.cons_ne_nil _ _)
    rw [← hset] at h
    rw [resume_emit h (fun _ => hnext) hlen, ih houtside hemit hmid]
    simp [extend, emit, push]

end Draft
end RegexSearch
