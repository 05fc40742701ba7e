import LispFront.Proofs.Reader.Compositional

/-!
# A mark in front of a text

A mark at the bottom of the stack changes nothing in what is read above it, up to the first time
that something gets down to it. If that is a form, the mark does its work on it, and what is left of
the text is read as it would be without the mark. If it is a form that was discarded, the mark gives
up, though a form may follow; which of the two happens shows in the first characters of the text
that are neither blank nor part of a comment.
-/

namespace LispFront

def Frame.isDiscard : Frame → Bool
  | .awaiting .discard _ => true
  | _ => false

namespace Stack

def under (fr : Frame) (s : Stack) : Stack := ⟨s.frames ++ [fr], s.forms⟩

def discards (frames : List Frame) : Bool := frames.getLast?.any Frame.isDiscard

theorem discards_cons (fr : Frame) (frames : List Frame) :
    discards (fr :: frames) = if frames = [] then fr.isDiscard else discards frames := by
  cases frames with
  | nil => rfl
  | cons fr' frames => simp [discards]

theorem discards_cons_of_not {fr : Frame} (h : fr.isDiscard = false) (frames : List Frame) :
    discards (fr :: frames) = discards frames := by
  rw [discards_cons]
  split
  · rename_i hframes
    rw [hframes, h]
    rfl
  · rfl

/-- What a stack without finished forms becomes, and what it becomes with `fr` below it: nothing
gets down to `fr`, or `fr` is given a form, or it is passed over a discarded one. -/
inductive Reaches (fr : Frame) (discarding : Bool) : Stack → Except ReadError Stack → Prop
  | above {frames : List Frame} : frames ≠ [] → discards frames = discarding →
      Reaches fr discarding ⟨frames, []⟩ (.ok ⟨frames ++ [fr], []⟩)
  | given (g : Form) : discarding = false →
      Reaches fr discarding ⟨[], [g]⟩ (deliver [] [fr] g)
  | passed : discarding = true → Reaches fr discarding ⟨[], []⟩ (skip [] [fr])

variable {fr : Frame} {frames : List Frame} {t : Stack}

theorem reaches_skip (start : Position) (h : skip [] frames = .ok t) :
    Reaches fr (discards (.awaiting .discard start :: frames)) t (skip [] (frames ++ [fr])) := by
  cases frames with
  | nil =>
    cases h
    exact .passed rfl
  | cons x frames =>
    cases x with
    | collecting b p elems =>
      cases h
      exact .above (List.cons_ne_nil _ _) (by simp [discards_cons])
    | awaiting | decorating => cases h

theorem reaches_deliver {f : Form} (h : deliver [] frames f = .ok t) :
    Reaches fr (discards frames) t (deliver [] (frames ++ [fr]) f) := by
  induction frames generalizing f with
  | nil =>
    cases h
    exact .given f rfl
  | cons x frames ih =>
    cases x with
    | collecting b start elems =>
      cases h
      refine .above (List.cons_ne_nil _ _) ?_
      rw [discards_cons_of_not rfl, discards_cons_of_not rfl]
    | awaiting mark start =>
      cases mark with
      | quote | deref =>
        rw [discards_cons_of_not rfl]
        exact ih h
      | var =>
        rw [discards_cons_of_not rfl]
        cases f with
        | symbol => exact ih h
        | _ => cases h
      | discard => exact reaches_skip start h
      | metadata =>
        rw [discards_cons_of_not rfl]
        cases hm : f.asMetadata? with
        | none => simp [deliver, hm, fail] at h
        | some m =>
          simp only [deliver, List.cons_append, hm] at h ⊢
          cases h
          exact .above (List.cons_ne_nil _ _) (discards_cons_of_not rfl frames)
    | decorating m start =>
      rw [discards_cons_of_not rfl]
      cases hg : f.withMetadata? (FormMap.merge f.metadata m) with
      | none => simp [deliver, hg, fail] at h
      | some g =>
        simp only [deliver, List.cons_append, hg] at h ⊢
        exact ih h

theorem reaches_close {closing : Option Char} (hopen : frames ≠ [])
    (h : close ⟨frames, []⟩ closing = .ok t) :
    Reaches fr (discards frames) t (close ⟨frames ++ [fr], []⟩ closing) := by
  cases frames with
  | nil => exact absurd rfl hopen
  | cons x frames =>
    cases x with
    | collecting b start elems =>
      rw [discards_cons_of_not rfl]
      cases hg : b.gather start elems.reverse with
      | error fault => simp [close, hg, fail] at h
      | ok g =>
        by_cases hc : closing = some b.closing
        · simp only [close, List.cons_append, hg, if_pos hc] at h ⊢
          exact reaches_deliver h
        · simp [close, hg, hc, fail] at h
    | awaiting | decorating => cases h

end Stack

namespace Reader

def Mode.isLiteral : Mode → Bool
  | .token .. | .string .. | .regex .. | .char _ | .charName .. => true
  | _ => false

namespace State

def under (fr : Frame) (s : State) : State := { s with stack := s.stack.under fr }

structure Busy (discarding : Bool) (s : State) : Prop where
  forms : s.stack.forms = []
  discards : Stack.discards s.stack.frames = discarding
  begun : s.stack.frames ≠ [] ∨ s.mode.isLiteral

/-- Reading the text from here comes to the point where something gets down to the bottom, and with
`fr` at the bottom it comes to the same point. -/
inductive Comes (fr : Frame) (discarding : Bool) (s : State) (cs : List Char) : Prop
  | given (p : Position) (rest : List Char) (g : Form) : discarding = false →
      s.readRest cs = readRest ⟨p, .between, ⟨[], [g]⟩⟩ rest →
      (s.under fr).readRest cs =
        (Stack.deliver [] [fr] g).bind (fun stack => readRest ⟨p, .between, stack⟩ rest) →
      Comes fr discarding s cs
  | passed (p : Position) (rest : List Char) : discarding = true →
      (s.under fr).readRest cs =
        (Stack.skip [] [fr]).bind (fun stack => readRest ⟨p, .between, stack⟩ rest) →
      Comes fr discarding s cs

variable {fr : Frame} {discarding : Bool} {s t : State} {cs rest : List Char} {fs : List Form}

theorem Comes.congr (h : Comes fr discarding t rest) (hs : s.readRest cs = t.readRest rest)
    (hunder : (s.under fr).readRest cs = (t.under fr).readRest rest) :
    Comes fr discarding s cs := by
  cases h with
  | given p rest g hd ht htunder => exact .given p rest g hd (hs.trans ht) (hunder.trans htunder)
  | passed p rest hd htunder => exact .passed p rest hd (hunder.trans htunder)

theorem comes_of_reaches {p : Position} {r r' : Except ReadError Stack}
    (h : s.readRest cs = .ok fs)
    (hs : s.readRest cs = r.bind fun t => readRest ⟨p, .between, t⟩ rest)
    (hunder : (s.under fr).readRest cs = r'.bind fun t => readRest ⟨p, .between, t⟩ rest)
    (hreaches : ∀ t, r = .ok t → Stack.Reaches fr discarding t r')
    (hrest : ∀ t : State, t.mode = .between → t.Busy discarding → t.readRest rest = .ok fs →
      Comes fr discarding t rest) : Comes fr discarding s cs := by
  rw [h] at hs
  obtain ⟨t, ht, hfs⟩ := bind_eq_ok.mp hs.symm
  cases hreaches t ht with
  | @above frames hframes hd =>
    have hcomes := hrest ⟨p, .between, ⟨frames, []⟩⟩ rfl ⟨rfl, hd, .inl hframes⟩ hfs
    exact hcomes.congr (h.trans hfs.symm) hunder
  | given g hd => exact .given p rest g hd (h.trans hfs.symm) hunder
  | passed hd => exact .passed p rest hd hunder

section Taking

variable {c : Char} (h : s.readRest (c :: cs) = .ok fs)
  (ih : ∀ t : State, t.Busy discarding → t.readRest cs = .ok fs → Comes fr discarding t cs)
include h ih

theorem comes_on (htake : s.take c = .ok t) (hunder : (s.under fr).take c = .ok (t.under fr))
    (ht : t.Busy discarding) : Comes fr discarding s (c :: cs) := by
  have hs := readRest_cons s c cs
  rw [htake] at hs
  have hs' := readRest_cons (s.under fr) c cs
  rw [hunder] at hs'
  have hcomes := ih { t with next := s.next.after c } ⟨ht.forms, ht.discards, ht.begun⟩
    (hs.symm.trans h)
  exact hcomes.congr hs hs'

theorem comes_of_begin (hs : s.Busy discarding) (hmode : s.mode = .between) :
    Comes fr discarding s (c :: cs) := by
  obtain ⟨next, mode, ⟨frames, forms⟩⟩ := s
  obtain ⟨hforms, hdiscards, hbegun⟩ := hs
  dsimp only at hmode hforms hdiscards hbegun
  subst hmode hforms
  have hopen : frames ≠ [] := hbegun.resolve_right (by simp [Mode.isLiteral])
  cases begins c with
  | enters mode _ hbegin => exact comes_on h ih (hbegin _) (hbegin _) ⟨rfl, hdiscards, .inl hopen⟩
  | opens frame _ hbegin =>
    refine comes_on h ih (hbegin _) (hbegin _) ⟨rfl, ?_, .inl (List.cons_ne_nil _ _)⟩
    change Stack.discards (frame next :: frames) = discarding
    rw [Stack.discards_cons, if_neg hopen, hdiscards]
  | closes hbegin =>
    have hunder : (Stack.under fr ⟨frames, []⟩).frames ≠ [] := by simp [Stack.under]
    exact comes_of_reaches h (readRest_close hopen hbegin cs) (readRest_close hunder hbegin cs)
      (fun t ht => hdiscards ▸ Stack.reaches_close hopen ht) fun t _ ht => ih t ht
  | fails hbegin =>
    have htake : take ⟨next, .between, ⟨frames, []⟩⟩ c = _ := hbegin _
    rw [readRest_cons, htake] at h
    cases h

theorem comes_of_deliver (hs : s.Busy discarding) {f : Form}
    (htake : ∀ stack, take { s with stack } c = deliver { s with stack } f) :
    Comes fr discarding s (c :: cs) := by
  obtain ⟨next, mode, ⟨frames, forms⟩⟩ := s
  obtain ⟨hforms, hdiscards, -⟩ := hs
  dsimp only at hforms hdiscards
  subst hforms
  exact comes_of_reaches h (readRest_deliver (htake _) cs) (readRest_deliver (htake _) cs)
    (fun t ht => hdiscards ▸ Stack.reaches_deliver ht) fun t _ ht => ih t ht

theorem comes_of_again (hs : s.Busy discarding) {f : Form}
    (htake : ∀ stack, take { s with stack } c = (deliver { s with stack } f).bind (·.begin c)) :
    Comes fr discarding s (c :: cs) := by
  obtain ⟨next, mode, ⟨frames, forms⟩⟩ := s
  obtain ⟨hforms, hdiscards, -⟩ := hs
  dsimp only at hforms hdiscards
  subst hforms
  exact comes_of_reaches h (readRest_again (htake _) cs) (readRest_again (htake _) cs)
    (fun t ht => hdiscards ▸ Stack.reaches_deliver ht) fun t hmode ht hfs =>
      comes_of_begin hfs ih ht hmode

theorem comes_of_literal (hs : s.Busy discarding) {start : Position} {r : Except ReadFault Form}
    (htake : ∀ stack, take { s with stack } c =
      (complete { s with stack } start r).bind (·.begin c)) :
    Comes fr discarding s (c :: cs) := by
  cases r with
  | ok f => exact comes_of_again h ih hs htake
  | error fault =>
    have hfail : s.take c = _ := htake s.stack
    rw [readRest_cons, hfail] at h
    cases h

theorem comes_of_quoted (hs : s.Busy discarding) {mode : List Char → Bool → Mode}
    {seen : List Char} {escaped : Bool} {f : Form} (hliteral : ∀ seen e, (mode seen e).isLiteral)
    (htake : ∀ stack, take { s with stack } c =
      if escaped then .ok { s with mode := mode (c :: seen) false, stack }
      else if c = '"' then deliver { s with stack } f
      else .ok { s with mode := mode (c :: seen) (c == '\\'), stack }) :
    Comes fr discarding s (c :: cs) := by
  have hbusy (m : Mode) (hm : m.isLiteral) : Busy discarding { s with mode := m } :=
    ⟨hs.forms, hs.discards, .inr hm⟩
  by_cases hescaped : escaped
  · simp only [hescaped, if_true] at htake
    exact comes_on h ih (htake _) (htake _) (hbusy _ (hliteral _ _))
  · by_cases hc : c = '"'
    · simp only [hescaped, hc, if_true, Bool.false_eq_true, if_false] at htake
      subst hc
      exact comes_of_deliver h ih hs htake
    · simp only [hescaped, hc, Bool.false_eq_true, if_false] at htake
      exact comes_on h ih (htake _) (htake _) (hbusy _ (hliteral _ _))

theorem comes_of_dispatch (hs : s.Busy discarding) {start : Position}
    (hmode : s.mode = .dispatch start) : Comes fr discarding s (c :: cs) := by
  obtain ⟨next, mode, ⟨frames, forms⟩⟩ := s
  obtain ⟨hforms, hdiscards, hbegun⟩ := hs
  dsimp only at hmode hforms hdiscards hbegun
  subst hmode hforms
  have hopen : frames ≠ [] := hbegun.resolve_right (by simp [Mode.isLiteral])
  have hbusy (x : Frame) : Busy discarding ⟨next, .between, ⟨x :: frames, []⟩⟩ := by
    refine ⟨rfl, ?_, .inl (List.cons_ne_nil _ _)⟩
    change Stack.discards (x :: frames) = discarding
    rw [Stack.discards_cons, if_neg hopen, hdiscards]
  have htake (stack : Stack) : take ⟨next, .dispatch start, stack⟩ c =
      dispatch ⟨next, .dispatch start, stack⟩ start c := rfl
  unfold dispatch at htake
  split at htake
  · exact comes_on h ih (htake _) (htake _) (hbusy _)
  · exact comes_on h ih (htake _) (htake _) ⟨rfl, hdiscards, .inl hopen⟩
  · exact comes_on h ih (htake _) (htake _) (hbusy _)
  · exact comes_on h ih (htake _) (htake _) (hbusy _)
  · rw [readRest_cons, htake] at h
    cases h

theorem comes_of_take (hs : s.Busy discarding) : Comes fr discarding s (c :: cs) := by
  obtain ⟨next, mode, stack⟩ := s
  have hbusy (m : Mode) (hm : m.isLiteral) : Busy discarding ⟨next, m, stack⟩ :=
    ⟨hs.forms, hs.discards, .inr hm⟩
  cases mode with
  | between => exact comes_of_begin h ih hs rfl
  | comment =>
    have hopen : stack.frames ≠ [] := hs.begun.resolve_right (by simp [Mode.isLiteral])
    by_cases hc : c = '\n'
    · exact comes_on h ih (congrArg Except.ok (if_pos hc)) (congrArg Except.ok (if_pos hc))
        ⟨hs.forms, hs.discards, .inl hopen⟩
    · exact comes_on h ih (congrArg Except.ok (if_neg hc)) (congrArg Except.ok (if_neg hc)) hs
  | token start seen =>
    by_cases hc : Text.continuesToken c
    · exact comes_on h ih (if_pos hc) (if_pos hc) (hbusy _ rfl)
    · exact comes_of_literal h ih hs fun stack => if_neg hc
  | string start seen escaped =>
    exact comes_of_quoted h ih hs (fun _ _ => rfl) fun stack => rfl
  | regex start seen escaped =>
    exact comes_of_quoted h ih hs (fun _ _ => rfl) fun stack => rfl
  | dispatch start => exact comes_of_dispatch h ih hs rfl
  | char start =>
    by_cases hc : Text.isAlphanumeric c
    · exact comes_on h ih (if_pos hc) (if_pos hc) (hbusy _ rfl)
    · cases hr : Token.char [c] with
      | ok f =>
        refine comes_of_deliver h ih hs (f := f) fun stack => (if_neg hc).trans ?_
        rw [hr]
        rfl
      | error fault =>
        have hfail : take ⟨next, .char start, stack⟩ c = _ := if_neg hc
        rw [readRest_cons, hfail, hr] at h
        cases h
  | charName start seen =>
    by_cases hc : Text.isAlphanumeric c
    · exact comes_on h ih (if_pos hc) (if_pos hc) (hbusy _ rfl)
    · exact comes_of_literal h ih hs fun stack => if_neg hc

end Taking

theorem Busy.not_settled (hs : s.Busy discarding) (hliteral : ¬s.mode.isLiteral)
    (hsettle : s.settle = .ok s) : s.readRest [] ≠ .ok fs := by
  intro h
  obtain ⟨t, ht, hstack⟩ := finish_eq_ok h
  rw [hsettle] at ht
  cases ht
  exact hs.begun.resolve_right hliteral (congrArg Stack.frames hstack)

theorem comes_at_end (hs : s.Busy discarding) (h : s.readRest [] = .ok fs) :
    Comes fr discarding s [] := by
  have hliteral {start : Position} {r : Except ReadFault Form}
      (hsettle : ∀ stack, settle { s with stack } = complete { s with stack } start r) :
      Comes fr discarding s [] := by
    obtain ⟨next, mode, ⟨frames, forms⟩⟩ := s
    obtain ⟨hforms, hdiscards, -⟩ := hs
    dsimp only at hforms hdiscards
    subst hforms
    cases r with
    | ok f =>
      refine comes_of_reaches h (readRest_settle (hsettle _)) (readRest_settle (hsettle _))
        (fun t ht => hdiscards ▸ Stack.reaches_deliver ht) fun t hmode ht hfs => ?_
      obtain ⟨_, mode, _⟩ := t
      cases hmode
      exact absurd hfs (ht.not_settled (by simp [Mode.isLiteral]) rfl)
    | error fault =>
      obtain ⟨t, ht, -⟩ := finish_eq_ok h
      have hfail : settle ⟨next, mode, ⟨frames, []⟩⟩ = _ := hsettle _
      rw [hfail] at ht
      cases ht
  obtain ⟨next, mode, stack⟩ := s
  cases mode with
  | between | comment => exact absurd h (hs.not_settled (by simp [Mode.isLiteral]) rfl)
  | token start seen => exact hliteral fun stack => rfl
  | charName start seen => exact hliteral fun stack => rfl
  | string | regex | dispatch | char => cases h

theorem comes (hs : s.Busy discarding) (h : s.readRest cs = .ok fs) :
    Comes fr discarding s cs := by
  induction cs generalizing s with
  | nil => exact comes_at_end hs h
  | cons c cs ih => exact comes_of_take h (fun t ht hfs => ih ht hfs) hs

end State

/-- What is left of a text behind blanks and comments; the flag says that it starts in a comment. -/
def behindBlanks : Bool → List Char → List Char
  | _, [] => []
  | true, c :: cs => behindBlanks (c != '\n') cs
  | false, c :: cs =>
    if Text.isBlank c then behindBlanks false cs
    else if c = ';' then behindBlanks true cs
    else c :: cs

/-- The first thing in the text, but for blanks and comments, is a form to be discarded. -/
def startsWithDiscard (cs : List Char) : Bool := ['#', '_'].isPrefixOf (behindBlanks false cs)

theorem head_behindBlanks {comment : Bool} {c : Char} {cs rest : List Char}
    (h : behindBlanks comment cs = c :: rest) : Text.isBlank c = false ∧ c ≠ ';' := by
  induction cs generalizing comment with
  | nil => cases comment <;> cases h
  | cons d cs ih =>
    cases comment with
    | true => exact ih h
    | false =>
      unfold behindBlanks at h
      split at h
      · exact ih h
      · split at h
        · exact ih h
        · rename_i hblank hcomment
          cases h
          exact ⟨eq_false_of_ne_true hblank, hcomment⟩

namespace State

variable {fr : Frame} {cs : List Char} {fs : List Form}

theorem readRest_behindBlanks (p : Position) (comment : Bool) (cs : List Char) :
    ∃ q, ∀ stack, readRest ⟨p, if comment then .comment else .between, stack⟩ cs =
      readRest ⟨q, .between, stack⟩ (behindBlanks comment cs) := by
  induction cs generalizing p comment with
  | nil => exact ⟨p, fun stack => by cases comment <;> rfl⟩
  | cons c cs ih =>
    cases comment with
    | true =>
      obtain ⟨q, hq⟩ := ih (p.after c) (c != '\n')
      refine ⟨q, fun stack => ?_⟩
      change _ = readRest ⟨q, .between, stack⟩ (behindBlanks (c != '\n') cs)
      rw [← hq]
      refine (readRest_cons _ c cs).trans ?_
      by_cases hc : c = '\n' <;> simp [take, hc, Except.bind]
    | false =>
      by_cases hblank : Text.isBlank c
      · obtain ⟨q, hq⟩ := ih (p.after c) false
        refine ⟨q, fun stack => ?_⟩
        rw [behindBlanks, if_pos hblank, ← hq]
        refine (readRest_cons _ c cs).trans ?_
        simp [take, begin, hblank, Except.bind]
      · by_cases hc : c = ';'
        · obtain ⟨q, hq⟩ := ih (p.after c) true
          refine ⟨q, fun stack => ?_⟩
          rw [behindBlanks, if_neg hblank, if_pos hc, ← hq]
          subst hc
          exact readRest_cons _ ';' cs
        · refine ⟨p, fun stack => ?_⟩
          rw [behindBlanks, if_neg hblank, if_neg hc]
          rfl

theorem busy_of_begin {p : Position} {c : Char} {s : State} (hblank : ¬Text.isBlank c)
    (hcomment : c ≠ ';') (hdispatch : c ≠ '#')
    (h : begin ⟨p, .between, ⟨[], []⟩⟩ c = .ok s) :
    s.Busy false ∧ begin ⟨p, .between, ⟨[fr], []⟩⟩ c = .ok (s.under fr) := by
  have hopened (x : Frame) (hx : x.isDiscard = false) : Busy false ⟨p, .between, ⟨[x], []⟩⟩ :=
    ⟨rfl, hx, .inl (List.cons_ne_nil _ _)⟩
  unfold begin at h
  rw [if_neg hblank] at h
  split at h
  · exact absurd rfl hcomment
  · cases h
    exact ⟨hopened _ rfl, rfl⟩
  · cases h
    exact ⟨hopened _ rfl, rfl⟩
  · cases h
    exact ⟨hopened _ rfl, rfl⟩
  · cases h
  · cases h
  · cases h
  · exact absurd rfl hdispatch
  · cases h
    exact ⟨hopened _ rfl, rfl⟩
  · cases h
    exact ⟨hopened _ rfl, rfl⟩
  · cases h
    exact ⟨hopened _ rfl, rfl⟩
  · cases h
    exact ⟨⟨rfl, rfl, .inr rfl⟩, rfl⟩
  · cases h
    exact ⟨⟨rfl, rfl, .inr rfl⟩, rfl⟩
  · by_cases hstart : Text.startsToken c
    · rw [if_pos hstart] at h
      cases h
      refine ⟨⟨rfl, rfl, .inr rfl⟩, ?_⟩
      unfold begin
      rw [if_neg hblank]
      split <;> first | contradiction | exact if_pos hstart
    · rw [if_neg hstart] at h
      cases h

theorem busy_of_dispatch {p start : Position} {c : Char} {s : State}
    (h : dispatch ⟨p, .dispatch start, ⟨[], []⟩⟩ start c = .ok s) :
    s.Busy (c == '_') ∧ dispatch ⟨p, .dispatch start, ⟨[fr], []⟩⟩ start c = .ok (s.under fr) := by
  unfold dispatch at h
  split at h
  · cases h
    exact ⟨⟨rfl, rfl, .inl (List.cons_ne_nil _ _)⟩, rfl⟩
  · cases h
    exact ⟨⟨rfl, rfl, .inr rfl⟩, rfl⟩
  · cases h
    exact ⟨⟨rfl, rfl, .inl (List.cons_ne_nil _ _)⟩, rfl⟩
  · cases h
    exact ⟨⟨rfl, rfl, .inl (List.cons_ne_nil _ _)⟩, rfl⟩
  · cases h

theorem comes_of_first {p : Position} {c : Char} (hblank : ¬Text.isBlank c) (hcomment : c ≠ ';')
    (h : readRest ⟨p, .between, ⟨[], []⟩⟩ (c :: cs) = .ok fs) :
    Comes fr (['#', '_'].isPrefixOf (c :: cs)) ⟨p, .between, ⟨[], []⟩⟩ (c :: cs) := by
  by_cases hdispatch : c = '#'
  · subst hdispatch
    have hgoes (stack : Stack) : readRest ⟨p, .between, stack⟩ ('#' :: cs) =
        readRest ⟨p.after '#', .dispatch p, stack⟩ cs := readRest_cons _ '#' cs
    cases cs with
    | nil => cases h
    | cons d cs =>
      rw [hgoes] at h
      have htakes := h
      rw [readRest_cons] at htakes
      obtain ⟨s, hs, -⟩ := bind_eq_ok.mp htakes
      obtain ⟨hbusy, hunder⟩ := busy_of_dispatch hs
      have hd : ['#', '_'].isPrefixOf ('#' :: d :: cs) = (d == '_') := by
        simp [List.isPrefixOf, eq_comm]
      rw [hd]
      exact (comes_on h (fun t ht hfs => comes ht hfs) hs hunder hbusy).congr (hgoes _) (hgoes _)
  · have htakes := h
    rw [readRest_cons] at htakes
    obtain ⟨s, hs, -⟩ := bind_eq_ok.mp htakes
    obtain ⟨hbusy, hunder⟩ := busy_of_begin hblank hcomment hdispatch hs
    have hc : ['#', '_'].isPrefixOf (c :: cs) = false := by
      simp [List.isPrefixOf, Ne.symm hdispatch]
    rw [hc]
    exact comes_on h (fun t ht hfs => comes ht hfs) hs hunder hbusy

theorem comes_of_start {p : Position} (h : readRest ⟨p, .between, ⟨[], []⟩⟩ cs = .ok fs)
    (hne : fs ≠ []) : Comes fr (startsWithDiscard cs) ⟨p, .between, ⟨[], []⟩⟩ cs := by
  obtain ⟨q, hq⟩ := readRest_behindBlanks p false cs
  have hstart : readRest ⟨p, .between, ⟨[], []⟩⟩ cs =
      readRest ⟨q, .between, ⟨[], []⟩⟩ (behindBlanks false cs) := hq _
  rw [hstart] at h
  unfold startsWithDiscard
  generalize hcs : behindBlanks false cs = ds at h
  cases ds with
  | nil =>
    cases h
    exact absurd rfl hne
  | cons c rest =>
    obtain ⟨hblank, hcomment⟩ := head_behindBlanks hcs
    rw [hcs] at hq
    exact (comes_of_first (ne_true_of_eq_false hblank) hcomment h).congr (hq _) (hq _)

theorem readRest_behind_last {p : Position} {f g : Form}
    (h : readRest ⟨p, .between, ⟨[], [g]⟩⟩ cs = .ok [f]) :
    f = g ∧ ∀ forms, readRest ⟨p, .between, ⟨[], forms⟩⟩ cs = .ok forms.reverse := by
  have hg := follows_readRest p [g] cs
  rw [h] at hg
  generalize hr : readRest .initial cs = r at hg
  cases hg with
  | ok hfs =>
    obtain ⟨gs, hgs, hbare⟩ := hfs
    obtain ⟨rfl, rfl⟩ : f = g ∧ gs = [] := by simpa [eq_comm] using hgs
    refine ⟨rfl, fun forms => ?_⟩
    have hforms := follows_readRest p forms cs
    rw [hr] at hforms
    generalize readRest ⟨p, .between, ⟨[], forms⟩⟩ cs = r' at hforms
    cases hforms with
    | ok hfs =>
      obtain ⟨gs, rfl, hgs⟩ := hfs
      obtain rfl : gs = [] := by simpa [← hbare] using hgs
      rw [List.append_nil]
  | below hbase => exact absurd rfl hbase

section Marked

variable {p : Position} {f : Form} (h : readRest ⟨p, .between, ⟨[], []⟩⟩ cs = .ok [f])
include h

theorem readRest_passed {e : ReadError} (hstart : startsWithDiscard cs)
    (hskip : Stack.skip [] [fr] = .error e) :
    readRest ⟨p, .between, ⟨[fr], []⟩⟩ cs = .error e := by
  have hcomes : Comes fr _ _ cs := comes_of_start h (List.cons_ne_nil _ _)
  rw [hstart] at hcomes
  cases hcomes with
  | given _ _ _ hd => cases hd
  | passed q rest _ hunder =>
    rw [hskip] at hunder
    exact hunder

theorem readRest_given (hstart : ¬startsWithDiscard cs)
    (hdone : ∀ t, Stack.deliver [] [fr] f = .ok t → t.frames = []) :
    readRest ⟨p, .between, ⟨[fr], []⟩⟩ cs =
      (Stack.deliver [] [fr] f).map (·.forms.reverse) := by
  have hcomes : Comes fr _ _ cs := comes_of_start h (List.cons_ne_nil _ _)
  rw [eq_false_of_ne_true hstart] at hcomes
  cases hcomes with
  | passed _ _ hd => cases hd
  | given q rest g _ hread hunder =>
    rw [hread] at h
    obtain ⟨rfl, hrest⟩ := readRest_behind_last h
    refine hunder.trans ?_
    cases hdeliver : Stack.deliver [] [fr] f with
    | error e => rfl
    | ok t =>
      obtain ⟨frames, forms⟩ := t
      obtain rfl : frames = [] := hdone _ hdeliver
      exact hrest forms

end Marked

theorem read_append (mark : String) {p : Position} {stack : Stack}
    (h : run .initial mark.toList = .ok ⟨p, .between, stack⟩) (s : String) :
    read (mark ++ s) = readRest ⟨p, .between, stack⟩ s.toList := by
  rw [read, String.toList_append, run_append, h]
  rfl

end State

end Reader

def readAt (p : Position) (s : String) : Except ReadError (List Form) :=
  Reader.State.readRest ⟨p, .between, ⟨[], []⟩⟩ s.toList

theorem readAt_of_read {s : String} {f : Form} (h : read s = .ok [f]) (p : Position) :
    ∃ g, readAt p s = .ok [g] ∧ g == f := by
  have hfollows := Reader.State.follows_readRest p [] s.toList
  rw [show Reader.State.readRest .initial s.toList = .ok [f] from h] at hfollows
  generalize hr : Reader.State.readRest ⟨p, .between, ⟨[], []⟩⟩ s.toList = r at hfollows
  cases hfollows with
  | @ok _ gs hfs =>
    obtain ⟨_, rfl, hgs⟩ := hfs
    obtain ⟨g, rfl, hg⟩ := List.map_eq_singleton_iff.mp hgs
    exact ⟨g, hr, Form.beq_iff_bare.mpr hg⟩

theorem FormMap.find?_insert_self (m : FormMap) (k v : Form) : (m.insert k v).find? k = some v := by
  have h := Sorted.find?_insert Form.cmp Prod.fst k (k, v) m
  rw [if_pos Std.ReflCmp.compare_self] at h
  exact congrArg (Option.map Prod.snd) h

namespace Form

def carriesMetadata (f : Form) : Bool := (f.withMetadata? []).isSome

def isSymbol : Form → Bool
  | .symbol .. => true
  | _ => false

end Form

open Reader State

section Marks

variable {s : String} {f : Form} (h : read s = .ok [f])
include h

theorem read_passed (hstart : startsWithDiscard s.toList) (mark : String) {p : Position}
    {fr : Frame} (hmark : State.run .initial mark.toList = .ok ⟨p, .between, ⟨[fr], []⟩⟩)
    (hskip : Stack.skip [] [fr] = .error ⟨.incomplete, 0⟩) :
    read (mark ++ s) = .error ⟨.incomplete, 0⟩ := by
  obtain ⟨g, hg, -⟩ := readAt_of_read h p
  rw [read_append mark hmark]
  exact readRest_passed hg hstart hskip

theorem read_given (hstart : ¬startsWithDiscard s.toList) (mark : String) {p : Position}
    {fr : Frame} (hmark : State.run .initial mark.toList = .ok ⟨p, .between, ⟨[fr], []⟩⟩)
    (hdone : ∀ g t, Stack.deliver [] [fr] g = .ok t → t.frames = []) :
    ∃ g, readAt p s = .ok [g] ∧ g == f ∧
      read (mark ++ s) = (Stack.deliver [] [fr] g).map (·.forms.reverse) := by
  obtain ⟨g, hg, hgf⟩ := readAt_of_read h p
  refine ⟨g, hg, hgf, ?_⟩
  rw [read_append mark hmark]
  exact readRest_given hg hstart (hdone g)

theorem read_decorated (hstart : ¬startsWithDiscard s.toList) :
    ∃ g, readAt ⟨4, 1, 5⟩ s = .ok [g] ∧ g == f ∧
      if f.carriesMetadata then
        ∃ g', read ("^:k " ++ s) = .ok [g'] ∧ g' == f ∧
          g'.metadata = FormMap.insert g.metadata (.key "k") (.bool true) ∧
          FormMap.find? g'.metadata (.key "k") = some (.bool true)
      else read ("^:k " ++ s) = .error ⟨.invalidMetadataTarget g, 0⟩ := by
  obtain ⟨g, hg, hgf, hread⟩ := read_given h hstart "^:k " rfl fun g t ht => by
    cases g with
    | symbol | list | vector | map | set =>
      cases ht
      rfl
    | _ => cases ht
  refine ⟨g, hg, hgf, ?_⟩
  have hbare := Form.beq_iff_bare.mp hgf
  have hk (m : FormMap) : FormMap.find? (m.insert (.key "k") (.bool true)) (.key "k") =
      some (.bool true) := FormMap.find?_insert_self m (.key "k") (.bool true)
  cases Form.alike_of_bare hbare with
  | symbol | list | vector | map | set =>
    exact ⟨_, hread, Form.beq_iff_bare.mpr hbare, rfl, hk _⟩
  | _ => exact hread

theorem read_var (hstart : ¬startsWithDiscard s.toList) :
    ∃ g, readAt ⟨2, 1, 3⟩ s = .ok [g] ∧ g == f ∧ read ("#'" ++ s) =
      if f.isSymbol then .ok [.call "var" [g]] else .error ⟨.varNeedsSymbol g, 0⟩ := by
  obtain ⟨g, hg, hgf, hread⟩ := read_given h hstart "#'" rfl fun g t ht => by
    cases g with
    | symbol =>
      cases ht
      rfl
    | _ => cases ht
  refine ⟨g, hg, hgf, hread.trans ?_⟩
  cases Form.alike_of_bare (Form.beq_iff_bare.mp hgf) <;> rfl

end Marks

/-- A mark in front of a text of one form does its work on the form, unless something is discarded
before the form; then it fails as if the text were at its end. -/
theorem read_prefixed {s : String} {f : Form} (h : read s = .ok [f]) :
    (startsWithDiscard s.toList → ∀ mark ∈ ["'", "@", "#_", "^:k ", "#'"],
      read (mark ++ s) = .error ⟨.incomplete, 0⟩) ∧
    (¬startsWithDiscard s.toList →
      (∃ g, readAt ⟨1, 1, 2⟩ s = .ok [g] ∧ g == f ∧
        read ("'" ++ s) = .ok [.call "quote" [g]] ∧ read ("@" ++ s) = .ok [.call "deref" [g]]) ∧
      read ("#_" ++ s) = .ok [] ∧
      (∃ g, readAt ⟨4, 1, 5⟩ s = .ok [g] ∧ g == f ∧
        if f.carriesMetadata then
          ∃ g', read ("^:k " ++ s) = .ok [g'] ∧ g' == f ∧
            g'.metadata = FormMap.insert g.metadata (.key "k") (.bool true) ∧
            FormMap.find? g'.metadata (.key "k") = some (.bool true)
        else read ("^:k " ++ s) = .error ⟨.invalidMetadataTarget g, 0⟩) ∧
      ∃ g, readAt ⟨2, 1, 3⟩ s = .ok [g] ∧ g == f ∧ read ("#'" ++ s) =
        if f.isSymbol then .ok [.call "var" [g]] else .error ⟨.varNeedsSymbol g, 0⟩) := by
  refine ⟨fun hstart mark hmark => ?_, fun hstart => ⟨?_, ?_, read_decorated h hstart,
    read_var h hstart⟩⟩
  · simp only [List.mem_cons, List.not_mem_nil, or_false] at hmark
    rcases hmark with rfl | rfl | rfl | rfl | rfl
    · exact read_passed h hstart "'" rfl rfl
    · exact read_passed h hstart "@" rfl rfl
    · exact read_passed h hstart "#_" rfl rfl
    · exact read_passed h hstart "^:k " rfl rfl
    · exact read_passed h hstart "#'" rfl rfl
  · obtain ⟨g, hg, hgf, hquote⟩ := read_given h hstart "'" rfl fun _ _ ht => by
      cases ht
      rfl
    obtain ⟨g', hg', -, hderef⟩ := read_given h hstart "@" rfl fun _ _ ht => by
      cases ht
      rfl
    cases hg.symm.trans hg'
    exact ⟨g, hg, hgf, hquote, hderef⟩
  · obtain ⟨g, -, -, hread⟩ := read_given h hstart "#_" rfl fun _ _ ht => by
      cases ht
      rfl
    exact hread

theorem read_prefixed_number :
    ∃ f, read ";x\n 1" = .ok [f] ∧
      (∃ g, readAt ⟨1, 1, 2⟩ ";x\n 1" = .ok [g] ∧ g == f ∧
        read ("'" ++ ";x\n 1") = .ok [.call "quote" [g]] ∧
        read ("@" ++ ";x\n 1") = .ok [.call "deref" [g]]) ∧
      read ("#_" ++ ";x\n 1") = .ok [] ∧
      (∃ f', read "#_a b" = .ok [f'] ∧ read ("'" ++ "#_a b") = .error ⟨.incomplete, 0⟩) := by
  obtain ⟨f, hf⟩ : ∃ f, read ";x\n 1" = .ok [f] := ⟨_, rfl⟩
  obtain ⟨f', hf'⟩ : ∃ f, read "#_a b" = .ok [f] := ⟨_, rfl⟩
  obtain ⟨hquote, hdiscard, -⟩ := (read_prefixed hf).2 (by decide)
  exact ⟨f, hf, hquote, hdiscard, f', hf', (read_prefixed hf').1 (by decide) "'" (by decide)⟩

/-- A quote gives up over a discarded form, though the form that it stands for follows. -/
theorem read_quote_before_discard :
    read "#_a b" = .ok [.sym "b"] ∧ read "'#_a b" = .error ⟨.incomplete, 0⟩ ∧
      ∀ g, read "'#_a b" ≠ .ok [.call "quote" [g]] :=
  ⟨rfl, rfl, nofun⟩

end LispFront
