import EscapeRoom.Proofs.Level.Built
import EscapeRoom.Proofs.Level.Printing
import EscapeRoom.Proofs.Tileset.Agreement

/-!
# Reading a written level

A level that was written down is read again as the same level, except that its lines have the numbers of the
lines that were read.
-/

namespace EscapeRoom

open Report

/-! ### Levels without the numbers of their lines -/

def Script.unnumbered (script : Script) : Script :=
  { script with lines := script.lines.map fun l => (0, l.2) }

def Spawn.unnumbered (spawn : Spawn) : Spawn :=
  { spawn with line := 0 }

def Exit.unnumbered (e : Exit) : Exit :=
  { e with line := 0 }

def LevelObject.unnumbered (o : LevelObject) : LevelObject :=
  { o with line := 0 }

def Room.unnumbered (room : Room) : Room :=
  { room with
    line := 0
    spawns := room.spawns.map fun e => (e.1, e.2.unnumbered)
    exits := room.exits.map Exit.unnumbered
    objects := room.objects.map LevelObject.unnumbered
    map := room.map.map fun row => (0, row.2) }

def Level.unnumbered (level : Level) : Level :=
  { level with
    line := 0
    conds := level.conds.map fun e => (e.1, e.2.unnumbered)
    acts := level.acts.map fun e => (e.1, e.2.unnumbered)
    rooms := level.rooms.map fun e => (e.1, e.2.unnumbered) }

namespace Level

/-- Whatever the lines with these texts are, reading them reports nothing and leads to what is asked for. -/
def Reads (s : Sources) (p : Progress) (texts : List String) (Q : Progress → Prop) : Prop :=
  ∀ lines : List Line, lines.map Line.text = texts → ∃ p', (lines.foldlM (readLine s) p).Yields p' ∧ Q p'

namespace Reads

variable {s : Sources} {p : Progress} {as bs : List String} {t : String} {Q R : Progress → Prop}

theorem nil (h : Q p) : Reads s p [] Q := by
  intro lines hl
  rw [List.map_eq_nil_iff] at hl
  subst hl
  exact ⟨p, by simp, h⟩

theorem append (h : Reads s p as fun m => Reads s m bs Q) : Reads s p (as ++ bs) Q := by
  intro lines hl
  obtain ⟨before, after, rfl, hb, ha⟩ := List.map_eq_append_iff.mp hl
  obtain ⟨m, hm, hr⟩ := h before hb
  obtain ⟨p', hp', hQ⟩ := hr after ha
  refine ⟨p', ?_, hQ⟩
  rw [List.foldlM_append, yields_bind]
  exact ⟨m, hm, hp'⟩

theorem mono (h : Reads s p as Q) (hQR : ∀ p, Q p → R p) : Reads s p as R := by
  intro lines hl
  obtain ⟨p', hp', hQ⟩ := h lines hl
  exact ⟨p', hp', hQR p' hQ⟩

theorem line (h : ∀ line, line.text = t → ∃ p', (readLine s p line).Yields p' ∧ Q p') : Reads s p [t] Q := by
  intro lines hl
  obtain ⟨line, rfl, hli⟩ := List.map_eq_singleton_iff.mp hl
  obtain ⟨p', hp', hQ⟩ := h line hli
  exact ⟨p', by simpa using hp', hQ⟩

/-- Things that are written one after the other are read one after the other, up to what `erase` takes off them. -/
theorem each {α β : Type} {xs : List α} {write : α → List String} {erase : α → β} (state : List α → Progress)
    (hp : p = state []) (h : ∀ done x rest, done.map erase ++ erase x :: rest = xs.map erase → x ∈ xs →
      Reads s (state done) (write x) fun p' => ∃ x', erase x' = erase x ∧ p' = state (done ++ [x'])) :
    Reads s p (xs.flatMap write) fun p' => ∃ xs', xs'.map erase = xs.map erase ∧ p' = state xs' := by
  subst hp
  -- The things read so far are those written so far, up to what is taken off.
  suffices hs : ∀ todo done : List α, done.map erase ++ todo.map erase = xs.map erase → (∀ x ∈ todo, x ∈ xs) →
      Reads s (state done) (todo.flatMap write) fun p' => ∃ xs', xs'.map erase = xs.map erase ∧ p' = state xs' from
    hs xs [] rfl fun x hx => hx
  intro todo
  induction todo with
  | nil =>
    intro done hdo _
    exact nil ⟨done, by simpa using hdo, rfl⟩
  | cons x todo ih =>
    intro done hdo hmem
    rw [List.forall_mem_cons] at hmem
    rw [List.flatMap_cons]
    refine append ((h done x (todo.map erase) (by simpa using hdo) hmem.1).mono ?_)
    rintro p' ⟨x', hx', rfl⟩
    exact ih (done ++ [x']) (by simpa [hx'] using hdo) hmem.2

theorem inSection {α β : Type} {xs : List α} {head : String} {write : α → String} (erase : α → β)
    (state : List α → Progress) (hh : Reads s p [head] fun p' => p' = state [])
    (h : ∀ done x rest, done.map erase ++ erase x :: rest = xs.map erase → x ∈ xs →
      ∀ line : Line, line.text = write x →
        ∃ x', erase x' = erase x ∧ (readLine s (state done) line).Yields (state (done ++ [x'])))
    (hQ : ∀ xs', xs'.map erase = xs.map erase → Q (readEnd (state xs'))) :
    Reads s p (blockTexts head (xs.map write)) Q := by
  have he : Reads s (state []) (xs.map write) fun p' =>
      ∃ xs', xs'.map erase = xs.map erase ∧ p' = state xs' := by
    rw [List.map_eq_flatMap]
    refine each state rfl fun done x rest hdo hx => line fun l hl => ?_
    obtain ⟨x', hx', hy⟩ := h done x rest hdo hx l hl
    exact ⟨_, hy, x', hx', rfl⟩
  show Reads s p ([head] ++ (xs.map write ++ ["END"])) Q
  refine append (hh.mono ?_)
  rintro _ rfl
  refine append (he.mono ?_)
  rintro _ ⟨xs', hxs', rfl⟩
  refine line fun l hl => ⟨readEnd (state xs'), ?_, hQ xs' hxs'⟩
  rw [readLine, if_pos hl, yields_pure]

end Reads

/-! ### Lines that begin or end something -/

variable {s : Sources} {p : Progress} {level : Level} {line : Line} {head : String} {rest : List String}

def known (level : Level) (tilesSeen : Bool) : Progress :=
  { level := some level, headerSeen := true, tilesSeen }

/-- The reading goes on with an entry or with something new: no script and no map is open. -/
structure Awaits (p : Progress) (level : Level) : Prop where
  level_eq : p.level = some level
  headerSeen : p.headerSeen = true
  script : p.script = none
  part : p.part ≠ some .map

theorem ne_end_of_words (hw : Text.words line.text = head :: rest) (hh : head ≠ "END" ∧ head ≠ "ENDROOM") :
    line.text ≠ "END" ∧ line.text ≠ "ENDROOM" := by
  constructor
  · intro h
    rw [h, words_end.1, List.cons.injEq] at hw
    exact hh.1 hw.1.symm
  · intro h
    rw [h, words_end.2, List.cons.injEq] at hw
    exact hh.2 hw.1.symm

theorem Awaits.readLine_eq (h : Awaits p level) (hw : Text.words line.text = head :: rest)
    (hh : head ≠ "END" ∧ head ≠ "ENDROOM" ∧ head ≠ "LEVEL") :
    readLine s p line = readHead line p level (head :: rest) := by
  obtain ⟨hend, her⟩ := ne_end_of_words hw ⟨hh.1, hh.2.1⟩
  rw [readLine, if_neg hend, if_neg her, h.script]
  simp only [if_neg h.part, hw, List.headD_cons, if_neg hh.2.2, h.headerSeen, h.level_eq, Bool.not_true,
    Bool.false_eq_true, if_false]

theorem levelPart?_eq_none (h : head ∉ keywords) : levelPart? head = none := by
  simp only [keywords, List.mem_cons, List.not_mem_nil, or_false, not_or] at h
  simp [levelPart?, h]

theorem roomPart?_eq_none (h : head ∉ keywords) : roomPart? head = none := by
  simp only [keywords, List.mem_cons, List.not_mem_nil, or_false, not_or] at h
  simp [roomPart?, h]

theorem Awaits.readLine_entry (h : Awaits p level) (hw : Text.words line.text = head :: rest)
    (hh : head ∉ keywords) : readLine s p line = readEntry line p level (head :: rest) := by
  have hl := levelPart?_eq_none hh
  have hr := roomPart?_eq_none hh
  simp only [keywords, List.mem_cons, List.not_mem_nil, or_false, not_or] at hh
  rw [h.readLine_eq hw ⟨hh.1, hh.2.1, hh.2.2.1⟩, readHead]
  simp [hl, hr, hh]

theorem words_keyword : ∀ t ∈ keywords, Text.words t = [t] := by
  intro t ht
  obtain ⟨hne, -, hc⟩ := keyword_spec t ht
  exact Text.words_of_isWord ⟨hne, fun c hmem => (hc c hmem).1⟩

theorem Awaits.reads_levelPart (h : Awaits p level) (part : Part) (hp : levelPart? head = some part)
    (hh : head ∈ keywords ∧ head ≠ "END" ∧ head ≠ "ENDROOM" ∧ head ≠ "LEVEL") :
    Reads s p [head] fun p' => p' = { p with part := some part } := by
  refine Reads.line fun line hl => ⟨_, ?_, rfl⟩
  have hw : Text.words line.text = [head] := hl ▸ words_keyword head hh.1
  rw [h.readLine_eq hw hh.2, readHead]
  simp [hp]

theorem Awaits.reads_roomPart (h : Awaits p level) (part : Part) (hr : p.room.isSome = true)
    (hp : levelPart? head = none ∧ roomPart? head = some part)
    (hh : head ∈ keywords ∧ head ≠ "END" ∧ head ≠ "ENDROOM" ∧ head ≠ "LEVEL") :
    Reads s p [head] fun p' => p' = { p with part := some part } := by
  refine Reads.line fun line hl => ⟨_, ?_, rfl⟩
  have hw : Text.words line.text = [head] := hl ▸ words_keyword head hh.1
  rw [h.readLine_eq hw hh.2, readHead]
  simp [hp.1, hp.2, hr]

/-! ### The header -/

theorem parts_pair {sep : Char} {sepText a b : String} (hsep : sepText.toList = [sep]) (ha : sep ∉ a.toList)
    (hb : sep ∉ b.toList) : Text.parts sep (Text.join sepText [a, b]) = [a, b] :=
  Text.parts_join hsep (by simp [ha, hb]) (by simp)

theorem parseSize_toString {z : Int} (h : Number.Writable z) : parseSize (toString z) = .ok z := by
  rw [parseSize, Number.parseLiteral_toString (by decide), if_pos h]
  rfl

def headed (level : Level) (number : Nat) : Level :=
  { name := level.name, width := level.width, height := level.height, startRoom := level.startRoom
    startSpawn := level.startSpawn, line := number }

theorem Printable.reads_header (h : level.Printable) (hwi : Number.Writable level.width)
    (hhe : Number.Writable level.height) :
    Reads s {} [lineText level.headPieces] fun p' => ∃ number, p' = known (headed level number) false := by
  refine Reads.line fun line hl => ⟨known (headed level line.number) false, ?_, line.number, rfl⟩
  have hwo : Text.words line.text = "LEVEL" :: Text.words (Text.join " " (level.headPieces.tail.map Piece.text)) := by
    rw [hl]
    exact Text.words_join_cons (by decide) _
  have hs : Fields.scan line.text = [("name", level.name), ("w", toString level.width),
      ("h", toString level.height), ("start", Text.join ":" [level.startRoom, level.startSpawn])] := by
    rw [hl, Piece.scan_lineText h.headPieces]
    exact Table.ofEntries_of_nodup (show ["name", "w", "h", "start"].Nodup by decide)
  have hp : Text.parts ':' (Text.join ":" [level.startRoom, level.startSpawn]) = [level.startRoom, level.startSpawn] :=
    parts_pair rfl (h.start.1.not_mem (by simp)) (h.start.2.not_mem (by simp))
  obtain ⟨hend, her⟩ := ne_end_of_words hwo (by decide)
  rw [readLine, if_neg hend, if_neg her]
  simp only [hwo, List.headD_cons, if_true]
  have hwi := parseSize_toString hwi
  have hhe := parseSize_toString hhe
  have hle : headerLevel line (Fields.scan line.text) { headerSeen := true } (toString level.width)
      (toString level.height) (level.startRoom, level.startSpawn) = .ok (headed level line.number) := by
    rw [headerLevel, hwi, hhe, hs]
    rfl
  have hw? : (Fields.scan line.text).get? "w" = some (toString level.width) := by rw [hs]; rfl
  have hh? : (Fields.scan line.text).get? "h" = some (toString level.height) := by rw [hs]; rfl
  have hst? : (Fields.scan line.text).get? "start" = some (Text.join ":" [level.startRoom, level.startSpawn]) := by
    rw [hs]; rfl
  have ht? : (Fields.scan line.text).get? "tset" = none := by rw [hs]; rfl
  have hsp : splitPair ':' (Text.join ":" [level.startRoom, level.startSpawn]) =
      .ok (level.startRoom, level.startSpawn) := by rw [splitPair, hp]
  rw [readHeader]
  simp only [hw?, hh?, hst?, ht?, hsp, pure_bind, hle]
  exact yields_pure.mpr rfl

/-! ### Sections of the level -/

/-- What is read next is not among what was read before, if all of it is different. -/
theorem not_mem_of_split {α β κ : Type} {xs done : List α} {x : α} {rest : List β} (erase : α → β) (key : α → κ)
    (g : β → κ) (hg : ∀ x, g (erase x) = key x) (hn : (xs.map key).Nodup)
    (h : done.map erase ++ erase x :: rest = xs.map erase) : key x ∉ done.map key := by
  have hmap : ∀ ys : List α, (ys.map erase).map g = ys.map key := by
    intro ys
    rw [List.map_map]
    exact List.map_congr_left fun y _ => hg y
  have hk : xs.map key = done.map key ++ key x :: rest.map g := by
    rw [← hmap xs, ← h, List.map_append, hmap, List.map_cons, hg]
  rw [hk, List.nodup_middle, List.nodup_cons] at hn
  exact fun hmem => hn.1 (List.mem_append_left _ hmem)

variable {seen : Bool}

theorem awaits_known (level : Level) (seen : Bool) : Awaits (known level seen) level :=
  ⟨rfl, rfl, rfl, by simp [known]⟩

theorem Awaits.withPart (h : Awaits p level) {part : Part} (hp : part ≠ .map) :
    Awaits { p with part := some part } level :=
  ⟨h.level_eq, h.headerSeen, h.script, by simpa using hp⟩

theorem tileId?_toString {z : Int} (h : Number.Writable z) (names : Table String Int) :
    tileId? (toString z) names = some z := by
  rw [tileId?, Number.parseLiteral_toString (by decide), if_pos h]

theorem IsTileKey.not_mem_keywords {key : String} (h : IsTileKey key) : key ∉ keywords :=
  fun hmem => (keyword_spec key hmem).2.1 h.1

theorem IsTileKey.isWord {key : String} (h : IsTileKey key) : Text.IsWord key :=
  ⟨h.isLine.ne_empty, fun c hc => (h.2 c hc).1⟩

theorem reads_tiles (ht : level.tiles = []) {tiles : Table String Int} (hne : tiles ≠ []) (hn : tiles.keys.Nodup)
    (h : ∀ e ∈ tiles, IsTileKey e.1 ∧ Number.Writable e.2) :
    Reads s (known level false) (blockTexts "TILES" (tiles.map tileText)) fun p' =>
      p' = known { level with tiles } true := by
  let state (done : Table String Int) : Progress :=
    { known { level with tiles := done } (!done.isEmpty) with part := some .tiles }
  refine Reads.inSection id state ?_ ?_ ?_
  · refine ((awaits_known level false).reads_levelPart _ rfl (by decide)).mono ?_
    rintro _ rfl
    simp [state, known, ← ht]
  · intro done e rest hdo he line hl
    obtain ⟨hkey, hw⟩ := h e he
    have hwo : Text.words line.text = [e.1, toString e.2] := by
      rw [hl]
      refine Text.words_join ?_
      simp only [List.forall_mem_cons]
      exact ⟨hkey.isWord, (isBare_toString e.2).isWord, by simp⟩
    have hnew : e.1 ∉ Table.keys done := not_mem_of_split id Prod.fst Prod.fst (fun _ => rfl) hn hdo
    have hput : Table.put done e.1 e.2 = done ++ [e] := Table.put_of_not_mem hnew e.2
    have hid : tileId? (toString e.2) [] = some e.2 := tileId?_toString hw []
    generalize toString e.2 = token at hwo hid
    refine ⟨e, rfl, ?_⟩
    rw [((awaits_known _ _).withPart (by decide)).readLine_entry hwo hkey.not_mem_keywords]
    simp [readEntry, readTile, hkey.1, known, state, hput, hid]
  · intro tiles' ht'
    obtain rfl : tiles' = tiles := by simpa using ht'
    simp [state, known, readEnd, hne]

inductive Register where
  | flags
  | vars
  | items

namespace Register

def keyword : Register → String
  | flags => "FLAGS"
  | vars => "VARS"
  | items => "ITEMS"

def part : Register → Part
  | flags => .flags
  | vars => .vars
  | items => .items

def names (level : Level) : Register → List String
  | flags => level.flags
  | vars => level.vars
  | items => level.items

def set (level : Level) (names : List String) : Register → Level
  | flags => { level with flags := names }
  | vars => { level with vars := names }
  | items => { level with items := names }

end Register

theorem declare_new {names : List String} {name : String} {twice : Cause} (h : name ∉ names) :
    declare line names name twice = pure (names ++ [name]) := by
  simp [declare, h]

theorem reads_register (r : Register) (he : r.names level = []) {names : List String} (hn : names.Nodup)
    (h : ∀ name ∈ names, IsName name) :
    Reads s (known level seen) (blockTexts r.keyword names) fun p' => p' = known (r.set level names) seen := by
  let state (done : List String) : Progress := { known (r.set level done) seen with part := some r.part }
  rw [← List.map_id names]
  refine Reads.inSection id state ?_ ?_ ?_
  · refine ((awaits_known level seen).reads_levelPart r.part ?_ ?_).mono ?_
    · cases r <;> rfl
    · cases r <;> decide
    · rintro _ rfl
      cases r <;> simp [state, known, Register.set, ← he, Register.names]
  · intro done name rest hdo hna line hl
    have hw : Text.words line.text = [name] := hl ▸ Text.words_of_isWord (h name hna).isBare.isWord
    have hnew : name ∉ done := by
      simpa using not_mem_of_split id id id (fun _ => rfl) (by simpa using hn) hdo
    refine ⟨name, rfl, ?_⟩
    rw [((awaits_known _ _).withPart (by cases r <;> decide)).readLine_entry hw (h name hna).2.2]
    cases r <;> simp [readEntry, known, state, Register.set, Register.part, declare_new hnew]
  · intro names' hn'
    obtain rfl : names' = names := by simpa using hn'
    simp [state, known, readEnd]

theorem messageParts?_messageText {e : String × String} (h : IsName e.1) : messageParts? (messageText e) = some e := by
  have hs : Text.isWordChar ' ' = false ∧ Text.isBlank ' ' = true := by decide
  have hw : ∀ c ∈ e.1.toList, Text.isWordChar c = true := h.isKey.2
  have hl : (messageText e).toList = e.1.toList ++ ' ' :: '=' :: ' ' :: '"' :: (e.2.toList ++ ['"']) := by
    simp [messageText, Text.join]
  have hne : e.1.toList ≠ [] := by simpa using h.1
  have hq : Text.trimStart (' ' :: '"' :: (e.2.toList ++ ['"'])) = '"' :: (e.2.toList ++ ['"']) := by
    rw [Text.trimStart, List.dropWhile_cons_of_pos hs.2, List.dropWhile_cons_of_neg (by decide)]
  have heq : Text.trimStart (' ' :: '=' :: ' ' :: '"' :: (e.2.toList ++ ['"'])) =
      '=' :: ' ' :: '"' :: (e.2.toList ++ ['"']) := by
    rw [Text.trimStart, List.dropWhile_cons_of_pos hs.2, List.dropWhile_cons_of_neg (by decide)]
  rw [messageParts?, hl]
  simp only [List.takeWhile_append_of_pos hw, List.dropWhile_append_of_pos hw,
    List.takeWhile_cons_of_neg (by simp [hs.1] : ¬Text.isWordChar ' ' = true),
    List.dropWhile_cons_of_neg (by simp [hs.1] : ¬Text.isWordChar ' ' = true), heq, List.append_nil]
  cases hn : e.1.toList with
  | nil => exact absurd hn hne
  | cons c name =>
    simp [hq, ← hn]

theorem reads_messages (hem : level.messages = []) {messages : Table String String} (hn : messages.keys.Nodup)
    (h : ∀ e ∈ messages, IsName e.1) :
    Reads s (known level seen) (blockTexts "MESSAGES" (messages.map messageText)) fun p' =>
      p' = known { level with messages } seen := by
  let state (done : Table String String) : Progress :=
    { known { level with messages := done } seen with part := some .messages }
  refine Reads.inSection id state ?_ ?_ ?_
  · refine ((awaits_known level seen).reads_levelPart _ rfl (by decide)).mono ?_
    rintro _ rfl
    simp [state, known, ← hem]
  · intro done e rest hdo he line hl
    have hw : Text.words line.text = e.1 :: Text.words (Text.join " " ["=", "\"" ++ e.2 ++ "\""]) := by
      rw [hl]
      exact Text.words_join_cons (h e he).isBare.isWord _
    have hnew : e.1 ∉ Table.keys done := not_mem_of_split id Prod.fst Prod.fst (fun _ => rfl) hn hdo
    have hput : Table.put done e.1 e.2 = done ++ [e] := Table.put_of_not_mem hnew e.2
    have hhas := Table.has_eq_false_iff.mpr hnew
    refine ⟨e, rfl, ?_⟩
    rw [((awaits_known _ _).withPart (by decide)).readLine_entry hw (h e he).2.2]
    simp [readEntry, readMessage, hl, messageParts?_messageText (h e he), known, state, hput, hhas]
  · intro messages' hm'
    obtain rfl : messages' = messages := by simpa using hm'
    simp [state, known, readEnd]

/-! ### Scripts -/

def setScripts (level : Level) (scripts : Table String Script) : ScriptKind → Level
  | .cond => { level with conds := scripts }
  | .act => { level with acts := scripts }

theorem reads_script (kind : ScriptKind) {script : Script} (h : script.Printable)
    (hnew : script.name ∉ (level.scripts kind).keys) :
    Reads s (known level seen) (script.texts kind) fun p' => ∃ script', script'.unnumbered = script.unnumbered ∧
      p' = known (level.setScripts (level.scripts kind ++ [(script.name, script')]) kind) seen := by
  let state (done : List (Nat × String)) : Progress :=
    { known level seen with script := some (kind, { name := script.name, lines := done }) }
  have hhas := Table.has_eq_false_iff.mpr hnew
  refine Reads.inSection (fun l : Nat × String => ((0 : Nat), l.2)) state ?_ ?_ ?_
  · refine Reads.line fun line hli => ⟨_, ?_, rfl⟩
    have hw : Text.words line.text = [kind.keyword, script.name] := by
      rw [hli]
      refine Text.words_join ?_
      simp only [List.forall_mem_cons]
      exact ⟨by cases kind <;> decide, h.name.isBare.isWord, by simp⟩
    rw [(awaits_known level seen).readLine_eq hw (by cases kind <;> decide)]
    cases kind with
    | cond =>
      have hhas : level.conds.has script.name = false := hhas
      simp [readHead, levelPart?, roomPart?, ScriptKind.keyword, readScriptHeader, hhas, state]
    | act =>
      have hhas : level.acts.has script.name = false := hhas
      simp [readHead, levelPart?, roomPart?, ScriptKind.keyword, readScriptHeader, hhas, state]
  · intro done l rest hdo hl line hli
    have hrow := h.lines l hl
    refine ⟨(line.number, l.2), rfl, ?_⟩
    rw [readLine, hli, if_neg hrow.ne_end, if_neg hrow.ne_endRoom]
    simp [state]
  · intro lines' hl'
    refine ⟨{ name := script.name, lines := lines' }, by simp [Script.unnumbered, hl'], ?_⟩
    cases kind with
    | cond =>
      have hput : level.conds.put script.name { name := script.name, lines := lines' } = _ :=
        Table.put_of_not_mem hnew _
      simp [state, known, readEnd, closeScript, hput, scripts, setScripts]
    | act =>
      have hput : level.acts.put script.name { name := script.name, lines := lines' } = _ :=
        Table.put_of_not_mem hnew _
      simp [state, known, readEnd, closeScript, hput, scripts, setScripts]

/-- An entry of a table of scripts without the numbers of its lines. -/
def unnumberedScript (e : String × Script) : String × Script :=
  (e.1, e.2.unnumbered)

theorem reads_scripts (kind : ScriptKind) (hem : level.scripts kind = []) {table : Table String Script}
    (hn : table.keys.Nodup) (h : ∀ e ∈ table, e.1 = e.2.name ∧ e.2.Printable) :
    Reads s (known level seen) (table.flatMap fun e => e.2.texts kind) fun p' => ∃ table' : Table String Script,
      table'.map unnumberedScript = table.map unnumberedScript ∧ p' = known (level.setScripts table' kind) seen := by
  have hs : level = level.setScripts [] kind := by
    cases kind <;> simp [setScripts, ← hem, scripts]
  refine Reads.each (fun done => known (level.setScripts done kind) seen) (congrArg (known · seen) hs) ?_
  intro done e rest hdo he
  obtain ⟨hkey, hp⟩ := h e he
  have hnew : e.2.name ∉ Table.keys done := 
    hkey ▸ not_mem_of_split unnumberedScript Prod.fst Prod.fst (fun _ => rfl) hn hdo
  have hsc : (level.setScripts done kind).scripts kind = done := by cases kind <;> rfl
  refine (reads_script kind hp (by rwa [hsc])).mono ?_
  rintro _ ⟨script', hs', rfl⟩
  refine ⟨(e.2.name, script'), by simp [unnumberedScript, hkey, hs'], ?_⟩
  rw [hsc]
  cases kind <;> rfl

/-! ### Rooms -/

def inside (level : Level) (seen : Bool) (room : Room) : Progress :=
  { known level seen with room := some room }

variable {room : Room}

theorem awaits_inside (level : Level) (seen : Bool) (room : Room) : Awaits (inside level seen room) level :=
  ⟨rfl, rfl, rfl, by simp [inside, known]⟩

theorem parsePosition?_positionText {x y : Int} (hx : Number.Writable x) (hy : Number.Writable y) :
    parsePosition? (positionText x y) = some (x, y) := by
  have hp : Text.parts ',' (positionText x y) = [toString x, toString y] :=
    parts_pair rfl (not_mem_toString (by simp)) (not_mem_toString (by simp))
  rw [parsePosition?, hp]
  simp only [Number.parseLiteral_toString (show Number.Base.decimal ≠ .hexadecimal by decide), if_pos hx, if_pos hy]

def unnumberedSpawn (e : String × Spawn) : String × Spawn :=
  (e.1, e.2.unnumbered)

theorem reads_spawns (hem : room.spawns = []) {spawns : Table String Spawn} (hn : spawns.keys.Nodup)
    (h : ∀ e ∈ spawns, IsName e.1 ∧ Number.Writable e.2.x ∧ Number.Writable e.2.y) :
    Reads s (inside level seen room)
      (blockTexts "SPAWNS" (spawns.map fun e => Text.join " " [e.1, positionText e.2.x e.2.y])) fun p' =>
        ∃ spawns' : Table String Spawn, spawns'.map unnumberedSpawn = spawns.map unnumberedSpawn ∧
          p' = inside level seen { room with spawns := spawns' } := by
  let state (done : Table String Spawn) : Progress :=
    { inside level seen { room with spawns := done } with part := some .spawns }
  refine Reads.inSection unnumberedSpawn state ?_ ?_ ?_
  · refine ((awaits_inside level seen room).reads_roomPart _ rfl ⟨rfl, rfl⟩ (by decide)).mono ?_
    rintro _ rfl
    simp [state, inside, ← hem]
  · intro done e rest hdo he line hl
    obtain ⟨hna, hx, hy⟩ := h e he
    have hw : Text.words line.text = [e.1, positionText e.2.x e.2.y] := by
      rw [hl]
      refine Text.words_join ?_
      simp only [List.forall_mem_cons]
      exact ⟨hna.isBare.isWord, (isBare_positionText _ _).isWord, by simp⟩
    have hnew : e.1 ∉ Table.keys done := not_mem_of_split unnumberedSpawn Prod.fst Prod.fst (fun _ => rfl) hn hdo
    have hhas := Table.has_eq_false_iff.mpr hnew
    refine ⟨(e.1, ⟨e.2.x, e.2.y, line.number⟩), rfl, ?_⟩
    have hput : Table.put done e.1 ⟨e.2.x, e.2.y, line.number⟩ = _ := Table.put_of_not_mem hnew _
    rw [((awaits_inside _ _ _).withPart (by decide)).readLine_entry hw hna.2.2]
    simp [readEntry, inRoom, readSpawn, known, inside, state, hhas, parsePosition?_positionText hx hy, hput]
  · intro spawns' hs'
    exact ⟨spawns', hs', rfl⟩

theorem reads_exits (hem : room.exits = []) {exits : List Exit}
    (h : ∀ e ∈ exits, IsName e.edge ∧ IsName e.room ∧ IsName e.spawn) :
    Reads s (inside level seen room) (blockTexts "EXITS" (exits.map Exit.print)) fun p' =>
      ∃ exits' : List Exit, exits'.map Exit.unnumbered = exits.map Exit.unnumbered ∧
        p' = inside level seen { room with exits := exits' } := by
  let state (done : List Exit) : Progress :=
    { inside level seen { room with exits := done } with part := some .exits }
  refine Reads.inSection Exit.unnumbered state ?_ ?_ ?_
  · refine ((awaits_inside level seen room).reads_roomPart _ rfl ⟨rfl, rfl⟩ (by decide)).mono ?_
    rintro _ rfl
    simp [state, inside, ← hem]
  · intro done e rest _ he line hl
    obtain ⟨hed, hr, hs⟩ := h e he
    have hw : Text.words line.text = [e.edge, Text.join ":" [e.room, e.spawn]] := by
      rw [hl]
      refine Text.words_join ?_
      simp only [List.forall_mem_cons]
      exact ⟨hed.isBare.isWord, (isBare_pair ":" (by decide) hr.isBare hs.isBare).isWord, by simp⟩
    have hp : Text.parts ':' (Text.join ":" [e.room, e.spawn]) = [e.room, e.spawn] :=
      parts_pair rfl (hr.not_mem (by simp)) (hs.not_mem (by simp))
    refine ⟨⟨e.edge, e.room, e.spawn, line.number⟩, rfl, ?_⟩
    rw [((awaits_inside _ _ _).withPart (by decide)).readLine_entry hw hed.2.2]
    simp [readEntry, inRoom, readExit, known, inside, state, hp]
  · intro exits' he'
    exact ⟨exits', he', rfl⟩

theorem reads_map (he : room.map = []) {rows : List (Nat × String)} (h : ∀ row ∈ rows, IsRow row.2) :
    Reads s (inside level seen room) (blockTexts "MAP" (rows.map (·.2))) fun p' =>
      ∃ rows' : List (Nat × String), rows'.map (fun row => ((0 : Nat), row.2)) = rows.map (fun row => (0, row.2)) ∧
        p' = inside level seen { room with map := rows' } := by
  let state (done : List (Nat × String)) : Progress :=
    { inside level seen { room with map := done } with part := some .map }
  refine Reads.inSection (fun row : Nat × String => ((0 : Nat), row.2)) state ?_ ?_ ?_
  · refine ((awaits_inside level seen room).reads_roomPart _ rfl ⟨rfl, rfl⟩ (by decide)).mono ?_
    rintro _ rfl
    simp [state, inside, ← he]
  · intro done row rest _ hrow line hl
    have hrow := h row hrow
    refine ⟨(line.number, row.2), rfl, ?_⟩
    rw [readLine, hl, if_neg hrow.ne_end, if_neg hrow.ne_endRoom]
    simp [state, inside, known, readMapRow, hl]
  · intro rows' hr'
    exact ⟨rows', hr', rfl⟩

/-! ### Objects -/

theorem readVerbs_joinedVerbs {mask : Nat} (hpos : 0 < mask) (hlt : mask < 32) :
    (readVerbs line (joinedVerbs mask)).Yields mask := by
  have hve : ∀ verb ∈ verbNames, Text.upper (Text.trim verb) = verb ∧ (verbBit? verb).isSome = true := by
    decide +kernel
  have hp : Text.parts '|' (joinedVerbs mask) = chosenVerbs mask :=
    Text.parts_join rfl (fun verb hv => (isName_verb verb (mem_verbNames_of_chosenVerbs hv)).not_mem (by simp))
      (chosenVerbs_ne_nil hpos hlt)
  rw [readVerbs, hp]
  nth_rewrite 2 [← chosenVerbs_mask mask hlt]
  refine yields_foldlM_of_forall fun verb hv n => ?_
  obtain ⟨hu, hbit⟩ := hve verb (mem_verbNames_of_chosenVerbs hv)
  obtain ⟨bit, hbit⟩ := Option.isSome_iff_exists.mp hbit
  simp [hu, hbit]

end Level

namespace Table

theorem get?_append_or {κ ν : Type} [DecidableEq κ] (t u : Table κ ν) (k : κ) :
    get? (t ++ u) k = (get? t k).or (get? u k) := by
  rw [get?, List.find?_append, Option.map_or]
  rfl

theorem getD_filter_nonempty {t : Fields} (hn : t.keys.Nodup) (k : String) :
    getD (t.filter fun e => !e.2.isEmpty) k "" = getD t k "" := by
  induction t with
  | nil => rfl
  | cons e t ih =>
    rw [keys_cons, List.nodup_cons] at hn
    by_cases he : e.2 = ""
    · rw [List.filter_cons_of_neg (by simp [he]), ih hn.2]
      by_cases hk : e.1 = k
      · subst hk
        simp [getD, get?_cons, get?_eq_none_iff.mpr hn.1, he]
      · simp [getD, get?_cons, hk]
    · rw [List.filter_cons_of_pos (by simp [he])]
      have ih := ih hn.2
      by_cases hk : e.1 = k
      · simp [getD, get?_cons, hk]
      · simpa [getD, get?_cons, hk] using ih

end Table

namespace LevelObject

open Level

variable {o : LevelObject} {key : String}

theorem keys_scriptFields (o : LevelObject) :
    o.scriptFields.keys = ["look", "take", "use", "talk", "operate", "ok", "bad"] := rfl

theorem Printable.get?_props (h : o.Printable) (hkey : key ∈ reservedFields) : o.props.get? key = none := by
  rw [Table.get?_eq_none_iff]
  intro hmem
  obtain ⟨e, he, rfl⟩ := List.mem_map.mp hmem
  exact (h.props_key e he).2 hkey

theorem Printable.getD_script (h : o.Printable) {key value : String} (hmem : (key, value) ∈ o.scriptFields) :
    o.fields.getD key "" = value := by
  have hn : o.scriptFields.keys.Nodup := by
    rw [keys_scriptFields]
    decide
  have hkey : key ∈ o.scriptFields.keys := List.mem_map_of_mem hmem
  have hp : o.props.get? key = none := h.get?_props (mem_reserved_of_scriptFields _ hmem)
  have hb : Table.get? [("type", o.typeName), ("verbs", joinedVerbs o.verbs), ("cond", o.cond)] key = none := by
    rw [Table.get?_eq_none_iff]
    have hdi : ∀ key ∈ ["look", "take", "use", "talk", "operate", "ok", "bad"], key ∉ ["type", "verbs", "cond"] := by
      decide
    exact hdi key hkey
  have hf := Table.getD_filter_nonempty hn key
  rw [Table.getD, Table.getD, Table.get?_of_mem hn hmem] at hf
  rw [LevelObject.fields, Table.getD, Table.get?_append_or, Table.get?_append_or, hb, hp]
  simpa using hf

theorem mem_keys_filter_scriptFields (h : key ∈ Table.keys (o.scriptFields.filter fun e => !e.2.isEmpty)) :
    key ∈ ["look", "take", "use", "talk", "operate", "ok", "bad"] :=
  (List.filter_sublist.map _).mem h

theorem Printable.get?_absent (h : o.Printable) (hkey : key ∈ ["reject", "fuse", "badge"]) :
    o.fields.get? key = none := by
  have ho : ∀ key ∈ ["reject", "fuse", "badge"], key ∈ reservedFields ∧ key ∉ ["type", "verbs", "cond"] ∧
      key ∉ ["look", "take", "use", "talk", "operate", "ok", "bad"] := by
    decide
  obtain ⟨hr, hb, hs⟩ := ho key hkey
  have hb : Table.get? [("type", o.typeName), ("verbs", joinedVerbs o.verbs), ("cond", o.cond)] key = none :=
    Table.get?_eq_none_iff.mpr hb
  have hs : Table.get? (o.scriptFields.filter fun e => !e.2.isEmpty) key = none :=
    Table.get?_eq_none_iff.mpr fun hmem => hs (mem_keys_filter_scriptFields hmem)
  rw [LevelObject.fields, Table.get?_append_or, Table.get?_append_or, hb, hs, h.get?_props hr]
  rfl

theorem Printable.nodup_fields (h : o.Printable) : o.fields.keys.Nodup := by
  have hk : o.fields.keys = ["type", "verbs", "cond"] ++
      Table.keys (o.scriptFields.filter fun e => !e.2.isEmpty) ++ o.props.keys := by
    simp [LevelObject.fields, Table.keys]
  have hs : (Table.keys (o.scriptFields.filter fun e => !e.2.isEmpty)).Nodup := by
    refine (List.filter_sublist.map _).nodup (?_ : o.scriptFields.keys.Nodup)
    rw [keys_scriptFields]
    decide
  have hdi : ∀ key ∈ ["look", "take", "use", "talk", "operate", "ok", "bad"], key ∉ ["type", "verbs", "cond"] := by
    decide
  have hr : ∀ key ∈ ["type", "verbs", "cond"] ++ ["look", "take", "use", "talk", "operate", "ok", "bad"],
      key ∈ reservedFields := by
    decide
  rw [hk, List.nodup_append, List.nodup_append]
  refine ⟨⟨by decide, hs, ?_⟩, h.props_nodup, ?_⟩
  · rintro key hkey _ hmem rfl
    exact hdi key (mem_keys_filter_scriptFields hmem) hkey
  · rintro key hkey _ hmem rfl
    obtain ⟨e, he, rfl⟩ := List.mem_map.mp hmem
    refine (h.props_key e he).2 (hr _ ?_)
    exact List.mem_append.mpr ((List.mem_append.mp hkey).imp_right mem_keys_filter_scriptFields)

theorem Printable.filter_fields (h : o.Printable) :
    (o.fields.filter fun e => !reservedFields.contains e.1) = o.props := by
  have hs : ∀ e ∈ o.scriptFields.filter fun e => !e.2.isEmpty, e.1 ∈ reservedFields := fun e he =>
    mem_reserved_of_scriptFields e (List.mem_of_mem_filter he)
  have hb : ∀ e ∈ [("type", o.typeName), ("verbs", joinedVerbs o.verbs), ("cond", o.cond)], e.1 ∈ reservedFields := by
    simp [reservedFields]
  rw [LevelObject.fields, List.filter_append, List.filter_append, List.filter_eq_nil_iff.mpr, List.filter_eq_nil_iff.mpr,
    List.filter_eq_self.mpr]
  · rfl
  · intro e he
    simpa using (h.props_key e he).2
  · intro e he
    simpa using hs e he
  · intro e he
    simpa using hb e he

theorem Printable.objectOf_fields (h : o.Printable) (number : Nat) :
    objectOf o.name o.x o.y o.typeName o.verbs number o.fields = { o with line := number } := by
  have ha : ∀ key ∈ ["reject", "fuse", "badge"], ∀ default, o.fields.getD key default = default := by
    intro key hkey default
    rw [Table.getD, h.get?_absent hkey, Option.getD_none]
  have hl : o.fields.getD "look" "" = o.look := h.getD_script (by simp [scriptFields])
  have ht : o.fields.getD "take" "" = o.take := h.getD_script (by simp [scriptFields])
  have huse : o.fields.getD "use" "" = o.use := h.getD_script (by simp [scriptFields])
  have hta : o.fields.getD "talk" "" = o.talk := h.getD_script (by simp [scriptFields])
  have ho : o.fields.getD "operate" "" = o.operate := h.getD_script (by simp [scriptFields])
  have hok : o.fields.getD "ok" "" = o.alt0 := h.getD_script (by simp [scriptFields])
  have hbad : o.fields.getD "bad" "" = o.alt1 := h.getD_script (by simp [scriptFields])
  have hc : o.fields.getD "cond" "ALWAYS" = o.cond := rfl
  rw [objectOf, h.filter_fields, hc, hl, ht, hta, ho, ha "reject" (by simp), huse,
    ha "fuse" (by simp), hok, ha "badge" (by simp), hbad]

end LevelObject

namespace Level

variable {s : Sources} {level : Level} {seen : Bool} {room : Room} {o : LevelObject}

theorem scan_object (h : o.Printable) : Fields.scan (lineText o.pieces) = o.fields := by
  have hf : o.pieces.filterMap Piece.field? = o.fields := by
    have hb : ∀ fields : Fields, (fields.map fun e => Piece.bare e.1 e.2).filterMap Piece.field? = fields := by
      intro fields
      rw [List.filterMap_map]
      exact List.filterMap_some
    exact hb o.fields
  rw [Piece.scan_lineText h.pieces, hf, Table.ofEntries_of_nodup h.nodup_fields]

/-- An object's line has a name, `at`, a position and at least one more word. -/
theorem words_object (h : o.Printable) :
    ∃ word rest, Text.words (lineText o.pieces) = o.name :: "at" :: positionText o.x o.y :: word :: rest := by
  have ht : Text.IsWord (Piece.bare "type" o.typeName).text := by
    refine ⟨by simp [Piece.text], fun c hc => ?_⟩
    simp only [Piece.text, String.toList_append, List.mem_append] at hc
    rcases hc with (hc | hc) | hc
    · revert c
      decide
    · revert c
      decide
    · exact (h.typeName.isBare.2 c hc).1
  refine ⟨_, _, (Text.words_join_cons h.name.isBare.isWord _).trans (congrArg _
    ((Text.words_join_cons (by decide) _).trans (congrArg _
      ((Text.words_join_cons (isBare_positionText o.x o.y).isWord _).trans (congrArg _
        (Text.words_join_cons ht _))))))⟩

theorem yields_readObjectAt (room : Room) (h : o.Printable) (hx : Number.Writable o.x) (hy : Number.Writable o.y)
    {line : Line} (hl : line.text = lineText o.pieces) : (readObjectAt line room o.name (positionText o.x o.y)).Yields
      { room with objects := room.objects ++ [{ o with line := line.number }] } := by
  have hp : Text.parts ',' (positionText o.x o.y) = [toString o.x, toString o.y] :=
    parts_pair rfl (not_mem_toString (by simp)) (not_mem_toString (by simp))
  have hs : Fields.scan line.text = o.fields := hl ▸ scan_object h
  have ht : o.fields.getD "type" "" = o.typeName := rfl
  have hv : o.fields.getD "verbs" "" = joinedVerbs o.verbs := rfl
  have hxl := Number.parseLiteral_toString (show Number.Base.decimal ≠ .hexadecimal by decide) o.x
  have hyl := Number.parseLiteral_toString (show Number.Base.decimal ≠ .hexadecimal by decide) o.y
  rw [if_pos hx] at hxl
  rw [if_pos hy] at hyl
  have hg : (o.typeName.isEmpty || (joinedVerbs o.verbs).isEmpty) = false := by
    simp [h.typeName.1, (isBare_joinedVerbs h.verbs_pos h.verbs_lt).1]
  rw [readObjectAt, hp]
  simp only [hs, ht, hv, hg, Bool.false_eq_true, if_false, yields_bind]
  refine ⟨o.verbs, readVerbs_joinedVerbs h.verbs_pos h.verbs_lt, ?_⟩
  simp only [hxl, hyl, h.objectOf_fields]
  exact yields_pure.mpr rfl

theorem reads_objects (he : room.objects = []) {objects : List LevelObject}
    (hn : (objects.map LevelObject.name).Nodup)
    (h : ∀ o ∈ objects, o.Printable ∧ Number.Writable o.x ∧ Number.Writable o.y) :
    Reads s (inside level seen room) (blockTexts "OBJECTS" (objects.map fun o => lineText o.pieces)) fun p' =>
      ∃ objects' : List LevelObject, objects'.map LevelObject.unnumbered = objects.map LevelObject.unnumbered ∧
        p' = inside level seen { room with objects := objects' } := by
  let state (done : List LevelObject) : Progress :=
    { inside level seen { room with objects := done } with part := some .objects }
  refine Reads.inSection LevelObject.unnumbered state ?_ ?_ ?_
  · refine ((awaits_inside level seen room).reads_roomPart _ rfl ⟨rfl, rfl⟩ (by decide)).mono ?_
    rintro _ rfl
    simp [state, inside, ← he]
  · intro done o rest hdo ho line hl
    obtain ⟨hp, hx, hy⟩ := h o ho
    obtain ⟨word, more, hw⟩ := words_object hp
    rw [← hl] at hw
    have hnew := not_mem_of_split LevelObject.unnumbered LevelObject.name LevelObject.name (fun _ => rfl) hn hdo
    have hany : (done.any fun o' => o'.name == o.name) = false := by
      rw [List.any_eq_false]
      intro o' ho' heq
      exact hnew (List.mem_map.mpr ⟨o', ho', by simpa using heq⟩)
    refine ⟨{ o with line := line.number }, rfl, ?_⟩
    rw [((awaits_inside _ _ _).withPart (by decide)).readLine_entry hw hp.name.2.2]
    have hr := yields_readObjectAt { room with objects := done } hp hx hy hl
    simp only [readEntry, inRoom, inside, known, state, yields_bind, yields_pure]
    refine ⟨_, ?_, rfl⟩
    simp only [readObject, hany, Bool.false_eq_true, if_false]
    exact hr
  · intro objects' hob'
    exact ⟨objects', hob', rfl⟩

/-- An entry of the table of rooms without the numbers of its lines. -/
def unnumberedRoom (e : String × Room) : String × Room :=
  (e.1, e.2.unnumbered)

theorem reads_roomHeader (h : room.Printable) (hnew : room.id ∉ level.rooms.keys) :
    Reads s (known level seen) [lineText room.headPieces] fun p' =>
      ∃ number, p' = inside level seen { id := room.id, name := room.name, line := number } := by
  refine Reads.line fun line hl => ⟨_, ?_, line.number, rfl⟩
  have hw : Text.words line.text = "ROOM" :: room.id ::
      Text.words (Text.join " " [(Piece.quoted "name" room.name).text]) := by
    rw [hl]
    exact (Text.words_join_cons (by decide) _).trans (congrArg _ (Text.words_join_cons h.id.isBare.isWord _))
  have hs : Fields.scan line.text = [("name", room.name)] := by
    rw [hl, Piece.scan_lineText h.headPieces]
    rfl
  have hn : (Fields.scan line.text).getD "name" room.id = room.name := by
    rw [hs]
    rfl
  have hhas := Table.has_eq_false_iff.mpr hnew
  rw [(awaits_known level seen).readLine_eq hw (by decide)]
  simp [readHead, levelPart?, roomPart?, readRoomHeader, hhas, hn, inside, known]

theorem reads_room (h : room.Printable) (hw : room.Writable) (hnew : room.id ∉ level.rooms.keys) :
    Reads s (known level seen) room.texts fun p' => ∃ room', room'.unnumbered = room.unnumbered ∧
      p' = known { level with rooms := level.rooms ++ [(room.id, room')] } seen := by
  refine Reads.append (Reads.append (Reads.append (Reads.append (Reads.append
    ((reads_roomHeader h hnew).mono ?_)))))
  rintro _ ⟨number, rfl⟩
  refine (reads_spawns rfl h.spawns_nodup fun e he => ⟨h.spawns e he, hw.spawns e he⟩).mono ?_
  rintro _ ⟨spawns, hs, rfl⟩
  refine (reads_exits rfl h.exits).mono ?_
  rintro _ ⟨exits, hex, rfl⟩
  refine (reads_objects rfl h.objects_nodup fun o ho => ⟨h.objects o ho, hw.objects o ho⟩).mono ?_
  rintro _ ⟨objects, hob, rfl⟩
  refine (reads_map rfl h.map).mono ?_
  rintro _ ⟨rows, hr, rfl⟩
  refine Reads.line fun line hl => ⟨_, ?_, ⟨room.id, room.name, number, spawns, exits, objects, rows⟩, ?_, rfl⟩
  · have hput : level.rooms.put room.id ⟨room.id, room.name, number, spawns, exits, objects, rows⟩ = _ :=
      Table.put_of_not_mem hnew _
    rw [readLine, if_neg (by rw [hl]; decide), if_pos hl]
    simp [readRoomEnd, inside, known, hput]
  · simp only [Room.unnumbered, hex, hob, hr, Room.mk.injEq, and_true, true_and]
    exact hs

theorem reads_rooms (hem : level.rooms = []) {rooms : Table String Room} (hn : rooms.keys.Nodup)
    (h : ∀ e ∈ rooms, e.1 = e.2.id ∧ e.2.Printable ∧ e.2.Writable) :
    Reads s (known level seen) (rooms.flatMap fun e => e.2.texts) fun p' => ∃ rooms' : Table String Room,
      rooms'.map unnumberedRoom = rooms.map unnumberedRoom ∧ p' = known { level with rooms := rooms' } seen := by
  refine Reads.each (fun done => known { level with rooms := done } seen) (by rw [← hem]) ?_
  intro done e rest hdo he
  obtain ⟨hkey, hp, hw⟩ := h e he
  have hnew : e.2.id ∉ Table.keys done :=
    hkey ▸ not_mem_of_split unnumberedRoom Prod.fst Prod.fst (fun _ => rfl) hn hdo
  refine (reads_room hp hw hnew).mono ?_
  rintro _ ⟨room', hr', rfl⟩
  exact ⟨(e.2.id, room'), by simp [unnumberedRoom, hkey, hr'], rfl⟩

/-! ### Whole levels -/

theorem reads_level (h : level.Printable) (hw : level.Writable) :
    Reads s {} level.texts fun p' => ∃ level', level'.unnumbered = level.unnumbered ∧
      "ALWAYS" ∈ level'.conds.keys ∧ p' = known level' true := by
  refine Reads.append (Reads.append (Reads.append (Reads.append (Reads.append (Reads.append (Reads.append (Reads.append
    ((h.reads_header hw.width hw.height).mono ?_))))))))
  rintro _ ⟨number, rfl⟩
  refine (reads_tiles rfl h.tiles_ne_nil h.tiles_nodup fun e he => ⟨h.tiles e he, hw.tiles e he⟩).mono ?_
  rintro _ rfl
  refine (reads_register .flags rfl h.flags_nodup h.flags).mono ?_
  rintro _ rfl
  refine (reads_register .vars rfl h.vars_nodup h.vars).mono ?_
  rintro _ rfl
  refine (reads_register .items rfl h.items_nodup h.items).mono ?_
  rintro _ rfl
  refine (reads_messages rfl h.messages_nodup fun e he => (h.messages e he).1).mono ?_
  rintro _ rfl
  refine (reads_scripts .cond rfl h.conds_nodup h.conds).mono ?_
  rintro _ ⟨conds, hc, rfl⟩
  refine (reads_scripts .act rfl h.acts_nodup h.acts).mono ?_
  rintro _ ⟨acts, ha, rfl⟩
  refine (reads_rooms rfl h.rooms_nodup fun e he => ⟨(h.rooms e he).1, (h.rooms e he).2, hw.rooms e he⟩).mono ?_
  rintro _ ⟨rooms, hr, rfl⟩
  refine ⟨_, ?_, ?_, rfl⟩
  · have hs := h.stamps
    simp only [unnumbered, setScripts, Register.set, headed, Level.mk.injEq, hs, true_and]
    exact ⟨hc, ha, hr⟩
  · have hk : ∀ table : Table String Script, Table.keys (table.map unnumberedScript) = table.keys := by
      intro table
      simp [Table.keys, unnumberedScript, Function.comp_def]
    have hal := h.always
    rw [← hk, ← hc, hk] at hal
    exact hal

theorem finish_known (h : "ALWAYS" ∈ level.conds.keys) : (finish (known level true)).Yields level := by
  have hhas : level.conds.has "ALWAYS" = true := by
    rw [Table.has, Option.isSome_iff_ne_none, ne_eq, Table.get?_eq_none_iff, not_not]
    exact h
  simp [finish, known, addAlways, hhas]

/-- A level that was written is read as the same level, without an issue, up to the numbers of its lines. -/
theorem read_print (s : Sources) (level : Level) (h : level.Printable) (hw : level.Writable) :
    ∃ level', (read s (FileTree.normalized level.print)).Yields level' ∧ level'.unnumbered = level.unnumbered := by
  obtain ⟨_, hp', level', hsame, halways, rfl⟩ := reads_level h hw _ h.map_text_sourceLines
  refine ⟨level', ?_, hsame⟩
  rw [read, Report.yields_bind]
  exact ⟨_, hp', finish_known halways⟩

def furnished : Level :=
  { name := "A B", width := 2, height := 1, startRoom := "R0", startSpawn := "S0", line := 1
    tiles := [("#", 3), ("=", -1)]
    flags := ["OPEN"]
    vars := ["V1", "V2"]
    items := ["FUSE"]
    messages := [("M", "IT SAYS \"A = B\"")]
    conds := [("ALWAYS", ⟨"ALWAYS", [(20, "TRUE")]⟩)]
    acts := [("GO", ⟨"GO", [(24, "SETFLAG OPEN"), (25, "MSG M")]⟩)]
    rooms := [("R0",
      { id := "R0", name := "", line := 28
        spawns := [("S0", ⟨1, 0, 30⟩)]
        exits := [⟨"L", "R1", "S0", 33⟩]
        objects := [
          { name := "at", x := 0, y := 0, typeName := "SIGN", verbs := 5, line := 36
            props := [("value", "x=1")], look := "GO" }]
        map := [(39, "#=")] })] }

theorem furnished_fits : furnished.Printable ∧ furnished.Writable := by
  decide +kernel

theorem read_print_furnished : furnished.Printable ∧ furnished.Writable ∧
    ∀ s, ∃ level', (read s (FileTree.normalized furnished.print)).Yields level' ∧
      level'.unnumbered = furnished.unnumbered :=
  ⟨furnished_fits.1, furnished_fits.2, fun s => read_print s furnished furnished_fits.1 furnished_fits.2⟩

/-! ### Numbers with too many digits -/

theorem not_yields_of_reads {p : Progress} {as bs : List String} {t : String} {Q : Progress → Prop}
    (h : Reads s p as Q) (hs : ∀ m, Q m → ∀ line, line.text = t → ∀ m', ¬(readLine s m line).Yields m')
    {lines : List Line} (hl : lines.map Line.text = as ++ t :: bs) (p' : Progress) :
    ¬(lines.foldlM (readLine s) p).Yields p' := by
  obtain ⟨before, rest, rfl, hb, hr⟩ := List.map_eq_append_iff.mp hl
  obtain ⟨line, after, rfl, hli, -⟩ := List.map_eq_cons_iff.mp hr
  obtain ⟨m, hm, hQ⟩ := h before hb
  rw [List.foldlM_append, yields_bind]
  rintro ⟨m₁, hm₁, hf⟩
  obtain rfl := hm.unique hm₁
  rw [List.foldlM_cons, yields_bind] at hf
  obtain ⟨m₂, hm₂, -⟩ := hf
  exact hs m hQ line hli m₂ hm₂

/-- A level whose first tile has a number with too many digits is not read without an issue. -/
theorem Printable.not_read_of_tile (h : level.Printable) (hw : Number.Writable level.width)
    (hh : Number.Writable level.height) {e : String × Int} {rest : Table String Int}
    (ht : level.tiles = e :: rest) (hl : ¬Number.Writable e.2) (level' : Level) :
    ¬(read s (FileTree.normalized level.print)).Yields level' := by
  have hkey : IsTileKey e.1 := h.tiles e (ht ▸ List.mem_cons_self)
  have hhe : Reads s {} ([lineText level.headPieces] ++ ["TILES"]) fun p' =>
      ∃ number, p' = { known (headed level number) false with part := some .tiles } := by
    refine Reads.append ((h.reads_header hw hh).mono ?_)
    rintro _ ⟨number, rfl⟩
    exact ((awaits_known _ _).reads_levelPart _ rfl (by decide)).mono fun _ hp => ⟨number, hp⟩
  have hte : level.texts = ([lineText level.headPieces] ++ ["TILES"]) ++ tileText e :: level.texts.drop 3 := by
    simp [Level.texts, ht, blockTexts]
  have hli := h.map_text_sourceLines
  rw [hte] at hli
  rw [read, yields_bind]
  rintro ⟨p', hp', -⟩
  refine not_yields_of_reads hhe ?_ hli p' hp'
  rintro _ ⟨number, rfl⟩ line hln m'
  have hwo : Text.words line.text = [e.1, toString e.2] := by
    rw [hln]
    refine Text.words_join ?_
    simp only [List.forall_mem_cons]
    exact ⟨hkey.isWord, (isBare_toString e.2).isWord, by simp⟩
  have hid : tileId? (toString e.2) [] = none := by
    rw [tileId?, Number.parseLiteral_toString (by decide), if_neg hl]
    rfl
  generalize toString e.2 = token at hwo hid
  rw [((awaits_known _ _).withPart (by decide)).readLine_entry hwo hkey.not_mem_keywords]
  simp [readEntry, readTile, hkey.1, known, hid]

/-- A level with a tile that has one digit too many. -/
def longTile : Level :=
  { name := "L", width := 1, height := 1, startRoom := "R", startSpawn := "S", line := 1
    tiles := [("x", 10 ^ Number.maxDigits), ("#", 0)]
    conds := [("ALWAYS", ⟨"ALWAYS", [(21, "TRUE")]⟩)]
    rooms := [("R", { id := "R", name := "R", line := 24, spawns := [("S", ⟨0, 0, 26⟩)], map := [(33, "#")] })] }

theorem long_tile_not_read : longTile.Printable ∧
    ∀ s level', ¬(read s (FileTree.normalized longTile.print)).Yields level' := by
  have hprintable : longTile.Printable := by
    decide +kernel
  refine ⟨hprintable, fun s level' => ?_⟩
  exact hprintable.not_read_of_tile (by decide) (by decide) rfl Number.not_writable_pow level'

end Level

end EscapeRoom
