import Mathlib.Data.List.TakeDrop
import EscapeRoom.Command.LevelCompiler
import EscapeRoom.Command.TilesetCompiler
import EscapeRoom.Proofs.Files
import EscapeRoom.Proofs.Paths

/-!
# What the compilers write

The commands that compile a tileset or a level take one argument, the input, and options with values. When
they end well, they have written exactly the files that their outputs name. However they end, they have
started nothing, and every directory is still there.
-/

namespace EscapeRoom

namespace Usage

variable {u : Usage} {p p' : Progress} {w : Word} {word out : String} {a : Arguments} {fuel : Nat} {more : List Word}
  {name value : String} {o : OptionSpec} {rest : List String}

/-- A command with one argument, which is needed, and options that all have values. -/
structure TakesInput (u : Usage) : Prop where
  argument : ∃ name, u.argument = some ⟨name, true⟩
  options : ∀ e ∈ u.names, e.2.kind = .help ∨ e.2.kind = .value

theorem named?_kind (hu : u.TakesInput) {name : String} (h : u.named? name = some o) :
    o.kind = .help ∨ o.kind = .value := by
  rw [named?, Option.map_eq_some_iff] at h
  obtain ⟨e, he, rfl⟩ := h
  exact hu.options e (List.mem_of_find?_eq_some he)

theorem candidates_kind (hu : u.TakesInput) {e : String × OptionSpec × Option String}
    (h : e ∈ u.candidates word) : e.2.1.kind = .help ∨ e.2.1.kind = .value := by
  unfold candidates at h
  split at h
  · obtain ⟨e', he', hs⟩ := List.mem_filterMap.mp h
    rw [Option.ite_none_right_eq_some, Option.some.injEq] at hs
    obtain ⟨-, rfl⟩ := hs
    exact hu.options e' he'
  · obtain ⟨⟨name, o⟩, he', hs⟩ := List.mem_filterMap.mp h
    dsimp only at hs
    split at hs
    · obtain rfl := Option.some.inj hs
      exact hu.options (name, o) he'
    · rw [Option.ite_none_right_eq_some, Option.some.injEq] at hs
      obtain ⟨-, rfl⟩ := hs
      exact hu.options (name, o) he'

theorem classify_cases (hu : u.TakesInput) (h : u.classify word = .ok w) :
    w = .plain word ∨ w = .unknown word ∨
      ∃ o name value, w = .option o name value ∧ (o.kind = .help ∨ o.kind = .value) := by
  unfold classify at h
  split at h
  · exact .inl (Except.ok.inj h).symm
  · dsimp only at h
    split at h
    · rename_i name o value rest hn
      refine .inr (.inr ⟨o, name, value, (Except.ok.inj h).symm, ?_⟩)
      split at hn
      · rename_i o' ho'
        rw [Option.toList_some, List.cons.injEq, Prod.mk.injEq, Prod.mk.injEq] at hn
        obtain ⟨⟨-, rfl, -⟩, -⟩ := hn
        exact named?_kind hu ho'
      · cases hcut : Text.cut '=' word with
        | none =>
          rw [hcut] at hn
          cases hn
        | some parts =>
          cases ho : u.named? parts.1 with
          | none =>
            simp [hcut, ho] at hn
          | some o' =>
            simp [hcut, ho] at hn
            obtain ⟨⟨-, rfl, -⟩, -⟩ := hn
            exact named?_kind hu ho
    · rename_i name o value hn hf
      refine .inr (.inr ⟨o, name, value, (Except.ok.inj h).symm, ?_⟩)
      have hmem : (name, o, value) ∈ u.candidates word := hf ▸ List.mem_singleton.mpr rfl
      exact candidates_kind hu hmem
    · split at h
      · exact .inl (Except.ok.inj h).symm
      · exact .inr (.inl (Except.ok.inj h).symm)
    · cases h

theorem setOption_of_value {value : String} (ho : o.kind = .value) : setOption p o value = .ok { p with
      arguments := { p.arguments with values := p.arguments.values.put (o.names.getLast?.getD "") value } } := by
  simp [setOption, ho]

theorem setJoined_eq_ok {r : Progress × Option OptionSpec}
    (ho : o.kind = .help ∨ o.kind = .value) (h : u.setJoined p o name value fuel = .ok r) :
    r.2 = none ∧ r.1.arguments.argument = p.arguments.argument ∧ r.1.argumentDone = p.argumentDone := by
  unfold setJoined at h
  rcases ho with ho | ho
  · cases fuel with
    | zero => simp [ho] at h
    | succ fuel =>
      simp only [ho] at h
      split at h
      · cases h
      · split at h
        · cases h
        · simp at h
  · simp only [ho, setOption_of_value ho] at h
    cases h
    exact ⟨rfl, rfl, rfl⟩

/-- A first word that is no argument leaves the argument open, if no plain word comes after it. -/
theorem readWords_of_not_plain (hw : ∃ text, w = .unknown text ∨
      ∃ o name value, w = .option o name value ∧ (o.kind = .help ∨ o.kind = .value))
    (hm : ∀ text rest, more ≠ .plain text :: rest) (h : u.readWords p (fuel + 1) (w :: more) = .ok p') :
    ∃ p₁, p₁.arguments.argument = p.arguments.argument ∧ p₁.argumentDone = p.argumentDone ∧
      u.readWords p₁ fuel more = .ok p' := by
  obtain ⟨text, rfl | ⟨o, name, value, rfl, ho⟩⟩ := hw
  · exact ⟨{ p with unrecognized := p.unrecognized ++ [text] }, rfl, rfl, h⟩
  · simp only [readWords] at h
    cases value with
    | some value =>
      obtain ⟨r, hr, h⟩ := except_bind_eq_ok.mp h
      obtain ⟨hn, ha, hdo⟩ := setJoined_eq_ok ho hr
      rw [hn] at h
      exact ⟨r.1, ha, hdo, h⟩
    | none =>
      obtain ⟨r, hr, h⟩ := except_bind_eq_ok.mp h
      cases hr
      rcases ho with ho | ho
      · simp [ho] at h
      · simp [ho] at h

theorem read_eq_ok (hu : u.TakesInput) {words : List String} (h : u.read words = .ok a) :
    ∃ ws p, u.classifyAll words = .ok ws ∧
      u.readWords { argumentDone := false } (2 * words.length + 2) ws = .ok p ∧
      p.arguments.argument ≠ none ∧ p.unrecognized = [] ∧ a = p.arguments := by
  obtain ⟨name, hn⟩ := hu.argument
  unfold read at h
  simp only [hn, Option.isNone_some] at h
  obtain ⟨ws, hws, h⟩ := except_bind_eq_ok.mp h
  obtain ⟨p, hp, h⟩ := except_bind_eq_ok.mp h
  refine ⟨ws, p, ?_, hp, ?_⟩
  · cases hc : u.classifyAll words with
    | error e =>
      rw [hc] at hws
      cases hws
    | ok ws' =>
      rw [hc] at hws
      cases hws
      rfl
  · cases ha : p.arguments.argument with
    | none => simp [ha] at h; cases h
    | some input =>
      by_cases hr : p.unrecognized = []
      · simp [ha, hr] at h
        cases h
        exact ⟨by simp, hr, rfl⟩
      · simp [ha, hr] at h
        cases h

/-- The words after the input: none, or an option with its value. -/
inductive Rest (u : Usage) : List String → List Word → Prop where
  | nothing : Rest u [] []
  | withOption {name value : String} {o : OptionSpec} : name ≠ "--" → value ≠ "--" →
      u.classify name = .ok (.option o name none) → u.classify value = .ok (.plain value) → o.kind = .value →
      Rest u [name, value] [.option o name none, .plain value]

theorem Rest.classifyAll (h : u.Rest rest more) : u.classifyAll rest = .ok more := by
  cases h with
  | nothing => rfl
  | withOption hn hv ho hp _ =>
    simp [Usage.classifyAll, hn, hv, ho, hp]
    rfl

theorem readWords_option {words : List Word}
    (ho : o.kind = .value) : u.readWords p (fuel + 1) (.option o name none :: .plain value :: words) =
      u.readWords { p with arguments := { p.arguments with
        values := p.arguments.values.put (o.names.getLast?.getD "") value } } fuel words := by
  simp only [readWords, pure_bind, ho, setOption_of_value ho]
  rfl

theorem Rest.argument_eq_none (hu : u.TakesInput) (h : u.Rest rest more)
    (ha : p.arguments.argument = none) (hdo : p.argumentDone = false)
    (hr : u.readWords p fuel more = .ok p') : p'.arguments.argument = none := by
  obtain ⟨name, hn⟩ := hu.argument
  have hnil : ∀ {p p' : Progress} {fuel : Nat}, p.arguments.argument = none → p.argumentDone = false →
      u.readWords p fuel [] = .ok p' → p'.arguments.argument = none := by
    intro p p' fuel ha hdo hr
    cases fuel with
    | zero =>
      obtain rfl := Except.ok.inj hr
      exact ha
    | succ fuel =>
      simp [readWords, readArgument, hn, hdo, takeArgument, List.span_eq_takeWhile_dropWhile] at hr
      obtain rfl := hr
      exact ha
  cases h with
  | nothing => exact hnil ha hdo hr
  | withOption _ _ _ _ ho =>
    cases fuel with
    | zero =>
      obtain rfl := Except.ok.inj hr
      exact ha
    | succ fuel =>
      rw [readWords_option ho] at hr
      refine hnil ?_ ?_ hr
      · exact ha
      · exact hdo

theorem Rest.read_dashes (hu : u.TakesInput) (h : u.Rest rest more) : u.read ("--" :: rest) ≠ .ok a := by
  intro hread
  obtain ⟨ws, p, hws, hp, ha, hr, -⟩ := read_eq_ok hu hread
  obtain ⟨name, hname⟩ := hu.argument
  obtain ⟨program, options, argument⟩ := u
  dsimp only at hname
  subst hname
  cases h with
  | nothing =>
    have hws : [.dashes] = ws := Except.ok.inj hws
    subst hws
    have hp : { argumentDone := false, unrecognized := ["--"] } = p := Except.ok.inj hp
    subst hp
    exact ha rfl
  | @withOption name' value =>
    have hws : [.dashes, .plain name', .plain value] = ws := Except.ok.inj hws
    subst hws
    have hp : { arguments := { argument := some name' }, argumentDone := true, unrecognized := [value] } = p :=
      Except.ok.inj hp
    subst hp
    cases hr

theorem readWords_plain {name text : String} {words : List Word}
    (hn : u.argument = some ⟨name, true⟩) (hdo : p.argumentDone = false)
    (hw : words.dropWhile (· == .dashes) = words) : u.readWords p (fuel + 1) (.plain text :: words) =
      u.readWords { p with argumentDone := true, arguments := { p.arguments with argument := some text } }
        fuel words := by
  have ht : takeArgument ⟨name, true⟩ (.plain text :: words) = some (some text, words) := by
    have hf : (Word.plain text :: words).dropWhile (· == .dashes) = .plain text :: words := rfl
    rw [takeArgument, hf]
    dsimp only
    rw [hw]
  have ha : u.readArgument p (.plain text :: words) =
      ({ p with argumentDone := true, arguments := { p.arguments with argument := some text } }, words) := by
    simp only [readArgument, hn, hdo, ht]
    rfl
  simp [readWords, ha]

/-- A command that takes an input and gets it as the first word has that word as its input. -/
theorem Rest.read_input (hu : u.TakesInput) (hr : u.Rest rest more)
    (h : u.read (word :: rest) = .ok a) : ∃ p, u.readWords
      { arguments := { argument := some word }, argumentDone := true } (2 * rest.length + 3) more = .ok p ∧
      a = p.arguments := by
  have hda : word ≠ "--" := by
    rintro rfl
    exact hr.read_dashes hu h
  obtain ⟨ws, p, hws, hp, ha, hre, rfl⟩ := read_eq_ok hu h
  rw [Usage.classifyAll, if_neg hda] at hws
  obtain ⟨w, hw, hws⟩ := except_bind_eq_ok.mp hws
  rw [hr.classifyAll] at hws
  obtain rfl : w :: more = ws := Except.ok.inj hws
  have hpl : ∀ text ws, more ≠ .plain text :: ws := by
    intro text ws
    cases hr with
    | nothing => simp
    | withOption => simp
  have hf : 2 * (word :: rest).length + 2 = 2 * rest.length + 3 + 1 := by
    rw [List.length_cons]
    omega
  rw [hf] at hp
  rcases classify_cases hu hw with rfl | ho
  · refine ⟨p, ?_, rfl⟩
    obtain ⟨name, hn⟩ := hu.argument
    have hm : more.dropWhile (· == .dashes) = more := by
      cases hr with
      | nothing => rfl
      | withOption => rfl
    rwa [readWords_plain hn rfl hm] at hp
  · have ho : ∃ text, w = .unknown text ∨
        ∃ o name value, w = .option o name value ∧ (o.kind = .help ∨ o.kind = .value) := ⟨word, ho⟩
    obtain ⟨p₁, ha₁, hd₁, hrd⟩ := readWords_of_not_plain ho hpl hp
    exact absurd (hr.argument_eq_none hu ha₁ hd₁ hrd) ha

theorem readWords_nil {name : String} (hn : u.argument = some ⟨name, true⟩)
    (hdo : p.argumentDone = true) : u.readWords p (fuel + 1) [] = .ok p := by
  obtain ⟨arguments, argumentDone, unrecognized⟩ := p
  dsimp only at hdo
  subst hdo
  simp [readWords, readArgument, hn, List.span_eq_takeWhile_dropWhile]

theorem read_input (hu : u.TakesInput) (h : u.read [word] = .ok a) : a = { argument := some word } := by
  obtain ⟨name, hn⟩ := hu.argument
  obtain ⟨p, hp, rfl⟩ := Rest.nothing.read_input hu h
  rw [readWords_nil hn rfl] at hp
  obtain rfl := Except.ok.inj hp
  rfl

theorem read_input_option (hu : u.TakesInput) (hn : name ≠ "--")
    (hv : value ≠ "--") (hop : u.classify name = .ok (.option o name none))
    (hpl : u.classify value = .ok (.plain value)) (ho : o.kind = .value) (h : u.read [word, name, value] = .ok a) :
    a = { argument := some word, values := [(o.names.getLast?.getD "", value)] } := by
  obtain ⟨argument, ha⟩ := hu.argument
  obtain ⟨p, hp, rfl⟩ := (Rest.withOption hn hv hop hpl ho).read_input hu h
  rw [readWords_option ho] at hp
  obtain rfl := Except.ok.inj ((readWords_nil ha rfl).symm.trans hp)
  rfl

end Usage

/-- A tree comes from another one by making directories and by writing these files in this order. -/
inductive FileTree.Emits (t : FileTree) : List (String × Content) → FileTree → Prop
  | refl : t.Emits [] t
  | directories {out : List (String × Content)} {t' t'' : FileTree} {path : String} : t.Emits out t' →
      t'.makeDirectories path = .ok t'' → t.Emits out t''
  | file {out : List (String × Content)} {t' t'' : FileTree} {path : String} {content : Content} : t.Emits out t' →
      t'.write path content = .ok t'' → t.Emits (out ++ [(path, content)]) t''

namespace FileTree.Emits

variable {t t' t'' : FileTree} {out more : List (String × Content)}

theorem trans (h : t.Emits out t') (h' : t'.Emits more t'') : t.Emits (out ++ more) t'' := by
  induction h' with
  | refl => rwa [List.append_nil]
  | directories _ hm ih => exact ih.directories hm
  | file _ hw ih =>
    rw [← List.append_assoc]
    exact ih.file hw

theorem writes (h : t.Emits out t') : t.Writes t' (out.map Prod.fst) := by
  induction h with
  | refl => exact .refl t
  | directories _ hm ih => simpa using ih.trans (writes_of_makeDirectories hm)
  | file _ hw ih => simpa using ih.trans (writes_of_write hw)

end FileTree.Emits

def LogEntry.started? : LogEntry → Option (Tool × List String)
  | .ran tool words _ => some (tool, words)
  | _ => none

def Session.started (s : Session) : List (Tool × List String) :=
  s.log.filterMap LogEntry.started?

namespace Act

variable {α β : Type} {out : List (String × Content)} {P Q : List (String × Content) → Prop} {path : String}
  {content : Content} {m : Act Unit}

/-- However the action ends, it has started nothing, and every directory is still there. -/
def Advances (m : Act α) : Prop :=
  ∀ s, (m.outcome s).2.started = s.started ∧ s.tree.Grows (m.outcome s).2.tree

theorem Advances.bind {m : Act α} {f : α → Act β} (hm : m.Advances) (hf : ∀ a, (f a).Advances) :
    (m >>= f).Advances := by
  intro s
  obtain ⟨hs, hg⟩ := hm s
  rcases h : m.outcome s with ⟨e | a, s'⟩
  · rw [outcome_bind_of_error h]
    rw [h] at hs hg
    exact ⟨hs, hg⟩
  · rw [outcome_bind_of_ends h]
    rw [h] at hs hg
    obtain ⟨hs', hg'⟩ := hf a s'
    exact ⟨hs'.trans hs, hg.trans hg'⟩

theorem advances_of_outcome {m : Act α} (h : ∀ s, (m.outcome s).2 = s) : m.Advances := by
  intro s
  rw [h s]
  exact ⟨rfl, .refl _⟩

theorem advances_pure (a : α) : (pure a : Act α).Advances := advances_of_outcome fun _ => rfl

theorem advances_exit (code : Int) : (exit code : Act α).Advances := advances_of_outcome fun _ => rfl

theorem advances_crash (c : Crash) : (crash c : Act α).Advances := advances_of_outcome fun _ => rfl

theorem advances_tree : tree.Advances := advances_of_outcome fun _ => rfl

theorem advances_root : root.Advances := advances_of_outcome fun _ => rfl

theorem advances_log {e : LogEntry} (he : e.started? = none) :
    (modify fun s => { s with log := s.log ++ [e] } : Act Unit).Advances := by
  intro s
  refine ⟨?_, .refl _⟩
  change (s.log ++ [e]).filterMap LogEntry.started? = s.log.filterMap LogEntry.started?
  simp [he]

theorem advances_print (line : String) : (print line).Advances := advances_log rfl

theorem advances_complain (line : String) : (complain line).Advances := advances_log rfl

theorem advances_arguments (u : Usage) (words : List String) : (arguments u words).Advances := by
  unfold arguments
  split
  · exact advances_pure _
  · exact advances_exit 0
  · exact (advances_complain _).bind fun _ => advances_exit 2

theorem advances_forM {xs : List α} {f : α → Act Unit} (hf : ∀ x, (f x).Advances) : (xs.forM f).Advances := by
  induction xs with
  | nil => exact advances_pure ()
  | cons x xs ih => exact (hf x).bind fun _ => ih

/-- However the action ends, it has started nothing, made directories, and written the first files of a plan, which is
as told. If it ends well, it has written all files of the plan. -/
def Delivers (m : Act α) (P : List (String × Content) → Prop) : Prop :=
  ∀ s : Session, ∃ out plan, P plan ∧ out <+: plan ∧ s.tree.Emits out (m.outcome s).2.tree ∧
    (m.outcome s).2.started = s.started ∧ ∀ a, (m.outcome s).1 = .ok a → out = plan

theorem Delivers.advances {m : Act α} (h : m.Delivers P) : m.Advances := by
  intro s
  obtain ⟨out, plan, -, -, hout, hs, -⟩ := h s
  exact ⟨hs, hout.writes.grows⟩

theorem Delivers.emits {m : Act α} (h : m.Delivers P) {s s' : Session} {a : α} (he : m.Ends s a s') :
    ∃ out, P out ∧ s.tree.Emits out s'.tree := by
  obtain ⟨out, plan, hp, -, hout, -, hok⟩ := h s
  rw [he] at hout hok
  obtain rfl := hok a rfl
  exact ⟨out, hp, hout⟩

theorem Delivers.mono {m : Act α} (h : m.Delivers P) (hpq : ∀ plan, P plan → Q plan) : m.Delivers Q := by
  intro s
  obtain ⟨out, plan, hp, h⟩ := h s
  exact ⟨out, plan, hpq plan hp, h⟩

/-- The action that follows has a plan even where the first one fails. -/
theorem Delivers.bind {f : Unit → Act β} (hm : m.Delivers Q)
    (hf : ∀ out, Q out → (f ()).Delivers fun more => P (out ++ more)) : (m >>= f).Delivers P := by
  intro s
  obtain ⟨out, plan, hq, hpre, hout, hs, hok⟩ := hm s
  rcases h : m.outcome s with ⟨e | ⟨⟩, s'⟩
  · obtain ⟨-, more, hp, -⟩ := hf plan hq s
    rw [outcome_bind_of_error h]
    rw [h] at hout hs
    exact ⟨out, plan ++ more, hp, hpre.trans (List.prefix_append ..), hout, hs, by simp⟩
  · rw [h] at hout hs hok
    obtain rfl := hok () rfl
    obtain ⟨rest, more, hp, hpre', hrest, hs', hok'⟩ := hf out hq s'
    rw [outcome_bind_of_ends h]
    refine ⟨out ++ rest, out ++ more, hp, (List.prefix_append_right_inj out).mpr hpre', hout.trans hrest,
      hs'.trans hs, fun b hb => ?_⟩
    rw [hok' b hb]

theorem Delivers.andThen {f : Unit → Act β} (hm : m.Delivers (· = out))
    (hf : (f ()).Delivers fun more => P (out ++ more)) : (m >>= f).Delivers P :=
  hm.bind fun _ h => h ▸ hf

theorem delivers_tree_bind {f : FileTree → Act α} (hf : ∀ t, (f t).Delivers P) : (tree >>= f).Delivers P := by
  intro s
  rw [outcome_bind_of_ends (ends_tree.mpr ⟨rfl, rfl⟩)]
  exact hf s.tree s

theorem delivers_root_bind {f : String → Act α} (hf : ∀ cwd, (f cwd).Delivers P) : (root >>= f).Delivers P := by
  intro s
  rw [outcome_bind_of_ends (ends_root.mpr ⟨rfl, rfl⟩)]
  exact hf s.tree.rootPath s

theorem delivers_pure (a : α) : (pure a : Act α).Delivers (· = []) :=
  fun _ => ⟨[], [], rfl, List.prefix_rfl, .refl, rfl, by simp⟩

theorem delivers_print (line : String) : (print line).Delivers (· = []) :=
  fun s => ⟨[], [], rfl, List.prefix_rfl, .refl, (advances_print line s).1, by simp⟩

theorem delivers_makeDirectories (path : String) : (makeDirectories path).Delivers (· = []) := by
  intro s
  refine ⟨[], [], rfl, List.prefix_rfl, ?_⟩
  rw [makeDirectories, outcome_bind_of_ends (ends_tree.mpr ⟨rfl, rfl⟩)]
  cases h : s.tree.makeDirectories path with
  | error e => exact ⟨.refl, rfl, by simp⟩
  | ok t => exact ⟨FileTree.Emits.refl.directories h, rfl, by simp⟩

theorem delivers_forM {xs : List α} {f : α → Act Unit} (hf : ∀ x, (f x).Delivers (· = [])) :
    (xs.forM f).Delivers (· = []) := by
  induction xs with
  | nil => exact delivers_pure ()
  | cons x xs ih => exact (hf x).andThen ih

/-- An action that tries to write a file, goes on if it can and fails if it cannot. -/
theorem delivers_tryWrite {f : Except FileError Unit → Act α} (hok : (f (.ok ())).Delivers (· = []))
    (herr : ∀ e s, ∃ ending s', (f (.error e)).outcome s = (.error ending, s') ∧ s'.tree = s.tree)
    (hadv : ∀ e, (f (.error e)).Advances) : (tryWrite path content >>= f).Delivers (· = [(path, content)]) := by
  intro s
  cases h : s.tree.write path content with
  | error e =>
    rw [outcome_bind_of_ends (ends_tryWrite.mpr (.inr ⟨e, h, rfl, rfl⟩))]
    obtain ⟨ending, s', he, ht⟩ := herr e s
    refine ⟨[], _, rfl, List.nil_prefix, ?_, (hadv e s).1, ?_⟩
    · rw [he, ht]
      exact .refl
    · simp [he]
  | ok t =>
    rw [outcome_bind_of_ends (ends_tryWrite.mpr (.inl ⟨t, h, rfl, rfl⟩))]
    obtain ⟨out, _, rfl, hpre, hout, hs, -⟩ := hok { s with tree := t }
    rw [List.prefix_nil.mp hpre] at hout
    exact ⟨_, _, rfl, List.prefix_rfl, (FileTree.Emits.refl.file h).trans hout, hs, by simp⟩

theorem delivers_write (path : String) (content : Content) : (write path content).Delivers (· = [(path, content)]) :=
  delivers_tryWrite (delivers_pure ()) (fun _ _ => ⟨_, _, rfl, rfl⟩) fun _ => advances_crash _

/-- A file is written only on a condition. -/
theorem delivers_if {b : Bool} (hm : m.Delivers (· = out)) :
    (if b then m else pure ()).Delivers (· = if b then out else []) := by
  cases b with
  | false => exact delivers_pure ()
  | true => exact hm

theorem Delivers.when {k : Act β} {b : Bool} (hm : m.Delivers (· = out))
    (hk : k.Delivers fun more => P ((if b then out else []) ++ more)) :
    (if b then m >>= fun _ => k else k).Delivers P := by
  cases b with
  | false => exact hk
  | true => exact hm.andThen hk

end Act

namespace LevelCompiler

theorem compileFile_of_readInput {input : String} {c : Level.Compiled} {s s' : Session}
    (h : (readInput input).Ends s c s') : compileFile s.tree input = (.ok (some c), []) ∧ s = s' := by
  unfold readInput at h
  simp only [Act.ends_bind, Act.ends_tree] at h
  obtain ⟨t, s₁, ⟨rfl, rfl⟩, h⟩ := h
  split at h
  · exact (Act.not_ends_crash h).elim
  · rename_i c' heq
    obtain ⟨rfl, rfl⟩ := Act.ends_pure.mp h
    exact ⟨heq, rfl⟩
  · simp at h

/-- The files of a level in the order in which they are written, where paths are seen from the directory `cwd`. -/
def plan (c : Level.Compiled) (o : Outputs) (cwd : String) : List (String × Content) :=
  let embedded := Text.replace (Path.relative cwd o.blob (Path.directory o.blobSource)) "\\" "/"
  [(o.blob, .data c.blob), (o.ids, .ofText (Level.idsHeader c.level)), (o.summary, .ofText ((Level.summary c).pretty 2)),
    (o.symbols, .ofText (Level.symbolMap c)), (o.blobHeader, .ofText (Level.declaration o.array)),
    (o.blobSource, .ofText (Level.blobSource (Path.fileName o.blobHeader) embedded o.array))] ++
    if !o.format.isEmpty then [(o.format, .ofText ("// Provided by levelc.py\n" ++ Level.formatHeader))] else []

theorem delivers_writeOutput (kind path : String) (content : Content) (note : String) :
    (writeOutput kind path content note).Delivers (· = [(path, content)]) :=
  Act.delivers_tryWrite (Act.delivers_print _) (fun _ _ => ⟨_, _, rfl, rfl⟩)
    fun _ => (Act.advances_complain _).bind fun _ => Act.advances_exit 1

theorem delivers_writeOutputs (c : Level.Compiled) (o : Outputs) :
    (writeOutputs c o).Delivers fun out => ∃ cwd, out = plan c o cwd := by
  unfold writeOutputs
  refine Act.delivers_root_bind fun cwd => ?_
  refine (delivers_writeOutput _ _ _ _).andThen ?_
  refine (delivers_writeOutput _ _ _ _).andThen ?_
  refine (delivers_writeOutput _ _ _ _).andThen ?_
  refine (delivers_writeOutput _ _ _ _).andThen ?_
  refine (delivers_writeOutput _ _ _ _).andThen ?_
  refine (delivers_writeOutput _ _ _ _).andThen ?_
  exact (Act.delivers_if (delivers_writeOutput _ _ _ _)).mono fun _ h => ⟨cwd, by simp [h, plan]⟩

theorem advances_readInput (input : String) : (readInput input).Advances := by
  refine Act.advances_tree.bind fun t => ?_
  split
  · exact Act.advances_crash _
  · exact Act.advances_pure _
  · refine Act.advances_root.bind fun root => ?_
    exact (Act.advances_forM fun i => Act.advances_complain _).bind fun _ => Act.advances_exit 1

theorem advances_run (words : List String) : (run words).Advances := by
  refine (Act.advances_arguments usage words).bind fun a => ?_
  refine (advances_readInput _).bind fun c => ?_
  refine Act.advances_root.bind fun root => ?_
  exact (Act.delivers_forM Act.delivers_makeDirectories).advances.bind fun _ => (delivers_writeOutputs c _).advances

end LevelCompiler

namespace TilesetCompiler

theorem read_of_readInput {input : String} {ts : LinkedTileset} {s s' : Session}
    (h : (readInput input).Ends s ts s') : (∃ source, s.tree.linewiseText input = .ok source ∧
      (Tileset.read ⟨input, s.tree.isFile⟩ source).run .collecting = (.ok ts, [])) ∧ s = s' := by
  have hf : ∀ {faults s a s'}, ¬ (failAt input faults : Act LinkedTileset).Ends s a s' := by
    intro faults s a s' h
    simp [failAt] at h
  unfold readInput at h
  simp only [Act.ends_bind, Act.ends_tree] at h
  obtain ⟨t, s₁, ⟨rfl, rfl⟩, h⟩ := h
  split at h
  · exact (hf h).elim
  · rename_i source hs
    split at h
    · rename_i ts' heq
      obtain ⟨rfl, rfl⟩ := Act.ends_pure.mp h
      exact ⟨⟨source, hs, heq⟩, rfl⟩
    · exact (hf h).elim
    · exact (hf h).elim
    · exact (hf h).elim

/-- The files of a tileset in the order in which they are written, where paths are seen from the directory `cwd`. -/
def plan (ts : LinkedTileset) (o : Outputs) (cwd charset : String) : List (String × Content) :=
  let embedded := Text.replace (Path.relative cwd o.blob (Path.directory o.blobSource)) "\\" "/"
  [(o.blob, .data (Tileset.blob ts.toTileset)), (o.ids, .ofText (Tileset.idsHeader ts.toTileset)),
    (o.blobHeader, .ofText (Tileset.blobDeclaration ts.toTileset)),
    (o.blobSource, .ofText (Tileset.blobDefinition ts.toTileset embedded))] ++
    ((if !ts.charset.isEmpty then [(o.charsetHeader, .ofText (Tileset.charsetDeclaration ts.toTileset)),
      (o.charsetSource, .ofText (Tileset.charsetDefinition ts.toTileset
        (Path.relative cwd charset (Path.directory o.charsetSource))))] else []) ++
    ((if !o.listing.isEmpty then [(o.listing, .ofText (Tileset.listing ts.toTileset))] else []) ++
    if !o.summary.isEmpty then [(o.summary, .ofText ((Tileset.summary ts.toTileset
      (ts.objects.values.map Tileset.linkedObjectSummary)).pretty 2))] else []))

theorem delivers_writeLogged (path text : String) : (writeLogged path text).Delivers (· = [(path, .ofText text)]) :=
  (Act.delivers_write _ _).andThen ((Act.delivers_print _).mono fun _ h => by simp [h])

theorem delivers_writeOutputs (input : String) (ts : LinkedTileset) (o : Outputs) :
    (writeOutputs input ts o).Delivers fun out => ∃ cwd charset, out = plan ts o cwd charset := by
  unfold writeOutputs
  refine Act.delivers_root_bind fun cwd => ?_
  refine (Act.delivers_forM fun path => Act.delivers_makeDirectories _).andThen ?_
  refine (Act.delivers_write _ _).andThen ?_
  refine (Act.delivers_print _).andThen ?_
  refine (delivers_writeLogged _ _).andThen ?_
  refine (delivers_writeLogged _ _).andThen ?_
  refine (delivers_writeLogged _ _).andThen ?_
  dsimp only
  cases hc : !ts.charset.isEmpty with
  | false =>
    refine (delivers_writeLogged _ _).when ?_
    refine (Act.delivers_if (delivers_writeLogged _ _)).mono fun _ h => ⟨cwd, "", ?_⟩
    simp [h, plan, hc]
  | true =>
    refine Act.delivers_tree_bind fun t => ?_
    refine (delivers_writeLogged _ _).andThen ?_
    refine (delivers_writeLogged _ _).andThen ?_
    refine (delivers_writeLogged _ _).when ?_
    refine (Act.delivers_if (delivers_writeLogged _ _)).mono fun _ h => ⟨cwd, charsetFile t input ts.charset, ?_⟩
    simp [h, plan, hc]

theorem advances_failAt {α : Type} (input : String) (faults : List (Nat × Nat × String)) :
    (failAt input faults : Act α).Advances := by
  refine Act.advances_root.bind fun root => ?_
  exact (Act.advances_forM fun fault => Act.advances_complain _).bind fun _ => Act.advances_exit 1

theorem advances_readInput (input : String) : (readInput input).Advances := by
  refine Act.advances_tree.bind fun t => ?_
  split
  · exact advances_failAt input _
  · split
    · exact Act.advances_pure _
    · exact advances_failAt input _
    · exact advances_failAt input _
    · exact advances_failAt input _

theorem advances_run (words : List String) : (run words).Advances := by
  refine (Act.advances_arguments usage words).bind fun a => ?_
  refine (advances_readInput _).bind fun ts => ?_
  exact Act.advances_root.bind fun root => (delivers_writeOutputs _ ts _).advances

end TilesetCompiler

end EscapeRoom
