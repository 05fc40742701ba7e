import LispFront.Proofs.Reader.Token
import LispFront.Proofs.Text.Quoted

/-!
# What holds of everything that is read

A property of forms, together with one of the metadata that marks hold, is kept by the reader if
each of its constructions keeps it. Whatever the reader then has at any moment, open or finished,
is of this kind, and so is what it returns.
-/

namespace LispFront

/-- What the reader makes of such forms and metadata is such again. -/
structure Reader.Makes (P : Form → Prop) (M : FormMap → Prop) : Prop where
  token {cs : List Char} {f : Form} : IsToken cs → Token.form cs = .ok f → P f
  char {cs : List Char} {f : Form} : Token.char cs = .ok f → P f
  string (s : String) : P (.string s)
  regex {source : String} : Text.scan false source.toList = some false → P (.regex source)
  gather {b : Bracket} {start : Position} {es : List Form} {f : Form} : (∀ e ∈ es, P e) →
    b.gather start es = .ok f → P f
  call {name : String} {f : Form} : name ∈ ["quote", "deref", "var"] → P f → P (.call name [f])
  metadata {f : Form} {m : FormMap} : P f → f.asMetadata? = some m → M m
  decorated {f g : Form} {m : FormMap} : P f → M m →
    f.withMetadata? (FormMap.merge f.metadata m) = some g → P g

def Frame.Sound (P : Form → Prop) (M : FormMap → Prop) : Frame → Prop
  | .collecting _ _ elems => ∀ e ∈ elems, P e
  | .awaiting .. => True
  | .decorating m _ => M m

namespace Stack

structure Sound (P : Form → Prop) (M : FormMap → Prop) (s : Stack) : Prop where
  frames : ∀ fr ∈ s.frames, fr.Sound P M
  forms : ∀ f ∈ s.forms, P f

variable {P : Form → Prop} {M : FormMap → Prop} {forms : List Form} {frames : List Frame}
  {t : Stack}

theorem push_sound {s : Stack} {fr : Frame} (hs : s.Sound P M) (hfr : fr.Sound P M) :
    (s.push fr).Sound P M :=
  ⟨List.forall_mem_cons.mpr ⟨hfr, hs.frames⟩, hs.forms⟩

theorem skip_sound (hs : Sound P M ⟨frames, forms⟩) (h : skip forms frames = .ok t) :
    t.Sound P M := by
  unfold skip at h
  split at h
  · cases h
  · cases h
  · cases h
    exact hs

variable (hP : Reader.Makes P M)
include hP

theorem deliver_sound {f : Form} (hs : Sound P M ⟨frames, forms⟩) (hf : P f)
    (h : deliver forms frames f = .ok t) : t.Sound P M := by
  induction frames generalizing f with
  | nil =>
    cases h
    exact ⟨hs.frames, List.forall_mem_cons.mpr ⟨hf, hs.forms⟩⟩
  | cons fr frames ih =>
    obtain ⟨hfr, hframes⟩ := List.forall_mem_cons.mp hs.frames
    have hrest : Sound P M ⟨frames, forms⟩ := ⟨hframes, hs.forms⟩
    cases fr with
    | collecting b start elems =>
      cases h
      exact ⟨List.forall_mem_cons.mpr ⟨List.forall_mem_cons.mpr ⟨hf, hfr⟩, hframes⟩, hs.forms⟩
    | awaiting mark start =>
      cases mark with
      | quote => exact ih hrest (hP.call (by simp) hf) h
      | deref => exact ih hrest (hP.call (by simp) hf) h
      | var =>
        unfold deliver at h
        dsimp only at h
        split at h
        · exact ih hrest (hP.call (by simp) hf) h
        · cases h
      | discard => exact skip_sound hrest h
      | metadata =>
        unfold deliver at h
        dsimp only at h
        split at h
        · rename_i m hm
          cases h
          exact push_sound hrest (hP.metadata hf hm)
        · cases h
    | decorating m start =>
      unfold deliver at h
      split at h
      · rename_i g hg
        exact ih hrest (hP.decorated hf hfr hg) h
      · cases h

theorem close_sound {s : Stack} {closing : Option Char} (hs : s.Sound P M)
    (h : s.close closing = .ok t) : t.Sound P M := by
  unfold close at h
  split at h
  · cases h
    exact hs
  · rename_i b start elems frames hframes
    obtain ⟨helems, hrest⟩ := List.forall_mem_cons.mp (hframes ▸ hs.frames)
    split at h
    · cases h
    · rename_i f hf
      have hread := hP.gather (fun e he => helems e (List.mem_reverse.mp he)) hf
      split at h
      · exact deliver_sound hP ⟨hrest, hs.forms⟩ hread h
      · cases h
  · cases h
  · cases h

end Stack

namespace Reader

def Mode.Sound : Mode → Prop
  | .token _ seen => IsToken seen.reverse
  | .regex _ seen escaped => Text.scan false seen.reverse = some escaped
  | _ => True

namespace State

structure Sound (P : Form → Prop) (M : FormMap → Prop) (s : State) : Prop where
  mode : s.mode.Sound
  stack : s.stack.Sound P M

variable {P : Form → Prop} {M : FormMap → Prop} {s t : State}

theorem openFrame_sound {fr : Frame} (hs : s.stack.Sound P M) (hfr : fr.Sound P M) :
    (s.openFrame fr).Sound P M :=
  ⟨trivial, Stack.push_sound hs hfr⟩

theorem dispatch_sound {start : Position} {c : Char} (hs : s.stack.Sound P M)
    (h : s.dispatch start c = .ok t) : t.Sound P M := by
  unfold dispatch at h
  split at h
  · cases h
    exact openFrame_sound hs (by simp [Frame.Sound])
  · cases h
    exact ⟨rfl, hs⟩
  · cases h
    exact openFrame_sound hs trivial
  · cases h
    exact openFrame_sound hs trivial
  · cases h

variable (hP : Makes P M)
include hP

theorem deliver_sound {f : Form} (hs : s.stack.Sound P M) (hf : P f)
    (h : s.deliver f = .ok t) : t.Sound P M := by
  obtain ⟨stack, hstack, rfl⟩ := map_eq_ok.mp h
  exact ⟨trivial, Stack.deliver_sound hP hs hf hstack⟩

theorem complete_sound {start : Position} {r : Except ReadFault Form} (hs : s.stack.Sound P M)
    (hr : ∀ f, r = .ok f → P f) (h : s.complete start r = .ok t) : t.Sound P M := by
  cases r with
  | ok f => exact deliver_sound hP hs (hr f rfl) h
  | error fault => cases h

theorem close_sound {c : Char} (hs : s.stack.Sound P M) (h : s.close c = .ok t) : t.Sound P M := by
  unfold close at h
  split at h
  · cases h
  · obtain ⟨stack, hstack, rfl⟩ := map_eq_ok.mp h
    exact ⟨trivial, Stack.close_sound hP hs hstack⟩

theorem begin_sound {c : Char} (hs : s.stack.Sound P M) (h : s.begin c = .ok t) : t.Sound P M := by
  unfold begin at h
  by_cases hblank : Text.isBlank c
  · rw [if_pos hblank] at h
    cases h
    exact ⟨trivial, hs⟩
  · rw [if_neg hblank] at h
    split at h
    · cases h
      exact ⟨trivial, hs⟩
    · cases h
      exact openFrame_sound hs (by simp [Frame.Sound])
    · cases h
      exact openFrame_sound hs (by simp [Frame.Sound])
    · cases h
      exact openFrame_sound hs (by simp [Frame.Sound])
    · exact close_sound hP hs h
    · exact close_sound hP hs h
    · exact close_sound hP hs h
    · cases h
      exact ⟨trivial, hs⟩
    · cases h
      exact openFrame_sound hs trivial
    · cases h
      exact openFrame_sound hs trivial
    · cases h
      exact openFrame_sound hs trivial
    · cases h
      exact ⟨trivial, hs⟩
    · cases h
      exact ⟨trivial, hs⟩
    · split at h
      · rename_i hstart
        cases h
        -- the branch depends on the character only, so it is taken from every state
        have hopens : OpensToken c := by
          intro s'
          unfold begin
          rw [if_neg hblank]
          split <;> first | contradiction | exact if_pos hstart
        exact ⟨⟨hopens, by simp⟩, hs⟩
      · cases h

theorem begin_of_complete_sound {start : Position} {r : Except ReadFault Form} {c : Char}
    (hs : s.stack.Sound P M) (hr : ∀ f, r = .ok f → P f)
    (h : (s.complete start r).bind (·.begin c) = .ok t) : t.Sound P M := by
  obtain ⟨u, hu, ht⟩ := bind_eq_ok.mp h
  exact begin_sound hP (complete_sound hP hs hr hu).stack ht

theorem take_regex_sound {start : Position} {seen : List Char} {escaped : Bool} {c : Char}
    (hscan : Text.scan false seen.reverse = some escaped) (hs : s.stack.Sound P M)
    (h : take { s with mode := .regex start seen escaped } c = .ok t) : t.Sound P M := by
  unfold take at h
  dsimp only at h
  split at h
  · rename_i hescaped
    cases h
    refine ⟨?_, hs⟩
    change Text.scan false (c :: seen).reverse = some false
    rw [List.reverse_cons]
    exact Text.scan_concat_of_escaped (hescaped ▸ hscan) c
  · rename_i hescaped
    rw [eq_false_of_ne_true hescaped] at hscan
    split at h
    · refine deliver_sound (s := { s with mode := .regex start seen escaped }) hP hs (hP.regex ?_) h
      rw [String.toList_ofList]
      exact hscan
    · rename_i hc
      cases h
      refine ⟨?_, hs⟩
      change Text.scan false (c :: seen).reverse = some (c == '\\')
      rw [List.reverse_cons]
      exact Text.scan_concat hscan hc

theorem take_sound {c : Char} (hs : s.Sound P M) (h : s.take c = .ok t) : t.Sound P M := by
  obtain ⟨hmode, hstack⟩ := hs
  obtain ⟨next, mode, stack⟩ := s
  cases mode with
  | between => exact begin_sound hP hstack h
  | comment =>
    unfold take at h
    dsimp only at h
    cases h
    split
    · exact ⟨trivial, hstack⟩
    · exact ⟨trivial, hstack⟩
  | token start seen =>
    unfold take at h
    dsimp only at h
    split at h
    · rename_i hc
      cases h
      refine ⟨?_, hstack⟩
      change IsToken (c :: seen).reverse
      rw [List.reverse_cons]
      exact isToken_append hmode hc
    · exact begin_of_complete_sound hP hstack (fun f => hP.token hmode) h
  | string start seen escaped =>
    unfold take at h
    dsimp only at h
    split at h
    · cases h
      exact ⟨trivial, hstack⟩
    · split at h
      · exact deliver_sound hP hstack (hP.string _) h
      · cases h
        exact ⟨trivial, hstack⟩
  | regex start seen escaped =>
    exact take_regex_sound (s := ⟨next, .between, stack⟩) hP hmode hstack h
  | dispatch start => exact dispatch_sound hstack h
  | char start =>
    unfold take at h
    dsimp only at h
    split at h
    · cases h
      exact ⟨trivial, hstack⟩
    · exact complete_sound hP hstack (fun f => hP.char) h
  | charName start seen =>
    unfold take at h
    dsimp only at h
    split at h
    · cases h
      exact ⟨trivial, hstack⟩
    · exact begin_of_complete_sound hP hstack (fun f => hP.char) h

theorem step_sound {c : Char} (hs : s.Sound P M) (h : s.step c = .ok t) : t.Sound P M := by
  obtain ⟨u, hu, rfl⟩ := map_eq_ok.mp h
  have husound := take_sound hP hs hu
  exact ⟨husound.mode, husound.stack⟩

theorem run_sound {cs : List Char} (hs : s.Sound P M) (h : s.run cs = .ok t) : t.Sound P M := by
  induction cs generalizing s with
  | nil =>
    cases h
    exact hs
  | cons c cs ih =>
    obtain ⟨u, hu, ht⟩ := bind_eq_ok.mp h
    exact ih (step_sound hP hs hu) ht

theorem settle_sound (hs : s.Sound P M) (h : s.settle = .ok t) : t.Sound P M := by
  obtain ⟨hmode, hstack⟩ := hs
  obtain ⟨next, mode, stack⟩ := s
  cases mode with
  | between =>
    cases h
    exact ⟨trivial, hstack⟩
  | comment =>
    cases h
    exact ⟨trivial, hstack⟩
  | token start seen => exact complete_sound hP hstack (fun f => hP.token hmode) h
  | charName start seen => exact complete_sound hP hstack (fun f => hP.char) h
  | string | regex | dispatch | char => cases h

theorem finish_sound {fs : List Form} (hs : s.Sound P M) (h : s.finish = .ok fs) :
    ∀ f ∈ fs, P f := by
  obtain ⟨t, ht, h⟩ := bind_eq_ok.mp h
  obtain ⟨stack, hstack, rfl⟩ := map_eq_ok.mp h
  have hsound := Stack.close_sound hP (settle_sound hP hs ht).stack hstack
  exact fun f hf => hsound.forms f (List.mem_reverse.mp hf)

end State

end Reader

/-- What the reader makes of its like holds of all that is read. -/
theorem Reader.Makes.of_read {P : Form → Prop} {M : FormMap → Prop} (hP : Reader.Makes P M)
    {source : String} {fs : List Form} (h : read source = .ok fs) : ∀ f ∈ fs, P f := by
  obtain ⟨s, hs, hfinish⟩ := bind_eq_ok.mp h
  have hinit : Reader.State.initial.Sound P M :=
    ⟨trivial, List.forall_mem_nil _, List.forall_mem_nil _⟩
  exact Reader.State.finish_sound hP (Reader.State.run_sound hP hinit hs) hfinish

end LispFront
