/-
The SIEM pull: `list_siem_events` of `api/siem_routers.py` and the Wazuh puller
`integrations/wazuh/mantis_siem_pull.py`, over the events that
`ingest_query_events` inserts.

The server hands out pages in the order of `seq`.  The puller appends a page to the
output file, writes the cursor, and goes on; a crash may leave a part of the page in
the file.

* `Step` — ingest transactions, the puller and its crashes, in any order;
* `Inv.step` — what each of them keeps, as long as no page overtakes an open
  transaction and no crash tears the first line of a page;
* `pull_complete` — after a run that reached the last page every committed event has
  a line of its own;
* `overtaken_and_torn` — an event that is skipped, and one that has no line of its own.
-/
import MantisDns.Sequenced
import MantisDns.Text

open Text Sequenced List Option

namespace Control.SiemPull

/-! ### Lines of a file -/

/-- The lines that have ended, and the one that has not; `line` is what was read of it. -/
def scan (line : Str) : Str → List Str × Str
  | [] => ([], line)
  | c :: rest =>
    if c = '\n' then (line :: (scan [] rest).1, (scan [] rest).2) else scan (line ++ [c]) rest

/-- The file ends at the end of a line. -/
def Whole (file : Str) : Prop := (scan [] file).2 = []

theorem scan_append (line a b : Str) : scan line (a ++ b) =
    ((scan line a).1 ++ (scan (scan line a).2 b).1, (scan (scan line a).2 b).2) := by
  induction a generalizing line with
  | nil => rfl
  | cons c a ih =>
    rw [cons_append, scan, scan]
    split
    · rw [ih []]
      rfl
    · exact ih _

theorem scan_text {text : Str} (h : '\n' ∉ text) (line rest : Str) :
    scan line (text ++ '\n' :: rest) =
      ((line ++ text) :: (scan [] rest).1, (scan [] rest).2) := by
  induction text generalizing line with
  | nil => rw [nil_append, scan, if_pos rfl, append_nil]
  | cons c text ih =>
    rw [mem_cons, not_or] at h
    rw [cons_append, scan, if_neg (Ne.symm h.1), ih h.2, append_assoc]
    rfl

/-- What `append_events` writes: the JSON of each event, and a newline. -/
def pageText (lines : List (ℕ × Str)) : Str := lines.flatMap fun l => l.2 ++ ['\n']

theorem scan_pageText {lines : List (ℕ × Str)} (h : ∀ l ∈ lines, '\n' ∉ l.2) (l : ℕ × Str)
    (hl : '\n' ∉ l.2) (line : Str) :
    scan line (pageText (l :: lines)) = ((line ++ l.2) :: lines.map (·.2), []) := by
  have hcons : pageText (l :: lines) = l.2 ++ '\n' :: pageText lines := by
    simp [pageText]
  rw [hcons, scan_text hl]
  -- only the first line of the page meets what was left over
  induction lines generalizing l line with
  | nil => rfl
  | cons l' lines ih =>
    have hcons' : pageText (l' :: lines) = l'.2 ++ '\n' :: pageText lines := by
      simp [pageText]
    have hl' : '\n' ∉ l'.2 := h l' mem_cons_self
    have hrest := ih (fun x hx => h x (mem_cons_of_mem _ hx)) l' hl' [] hcons'
    rw [hcons', scan_text hl']
    simp only [Prod.mk.injEq, List.cons.injEq, true_and] at hrest ⊢
    simp [hrest]

/-! ### The puller -/

variable {ε : Type}

/-- The filters of the puller, and its JSON; what is looked up for an event may change from
one fetch to the next. -/
structure Config (ε : Type) where
  /-- `--tenant-id` and `--decision`. -/
  wanted : ε → Bool
  limit : ℕ
  limit_pos : 0 < limit
  maxPages : ℕ
  /-- The line may stand for the event of that `seq`. -/
  Json : ℕ → Str → Prop
  no_newline : ∀ n line, Json n line → '\n' ∉ line

inductive Phase
  | off
  /-- About to ask for a page. -/
  | polling (pages : ℕ)
  | appending (lines : List (ℕ × Str)) (more : Bool) (pages : ℕ)
  /-- About to write the cursor. -/
  | appended (last : ℕ) (more : Bool) (pages : ℕ)
  /-- A run that returned after the last page. -/
  | finished
  /-- A run that returned because of `--max-pages`. -/
  | cutOff

structure State (ι ε : Type) where
  table : Table ι ε
  file : Str
  /-- The state file. -/
  cursor : Option ℕ
  phase : Phase

/-- The lines that are being written. -/
def Phase.lines : Phase → List (ℕ × Str)
  | .appending lines _ _ => lines
  | _ => []

inductive Label (ι ε : Type)
  | ingest (op : Op ι ε)
  | start
  | poll
  | append
  | checkpoint
  | crash (written : Str)

variable {ι : Type}

/-- The rows of the next page. -/
def State.page (cfg : Config ε) (s : State ι ε) : List (Row ε) :=
  nextRows cfg.wanted cfg.limit s.cursor s.table.rows

/-- `has_more`. -/
def State.hasMore (cfg : Config ε) (s : State ι ε) : Bool :=
  cfg.limit < (hits cfg.wanted s.cursor s.table.rows).length

inductive Step [DecidableEq ι] (cfg : Config ε) (s : State ι ε) : Label ι ε → State ι ε → Prop
  | ingest (op : Op ι ε) : Step cfg s (.ingest op) { s with table := s.table.apply op }
  | start (h : s.phase = .off ∨ s.phase = .finished ∨ s.phase = .cutOff) :
    Step cfg s .start { s with phase := .polling 0 }
  | pollEmpty {pages : ℕ} (h : s.phase = .polling pages) (hpage : s.page cfg = []) :
    Step cfg s .poll { s with phase := .finished }
  | poll {pages : ℕ} {lines : List (ℕ × Str)} (h : s.phase = .polling pages)
      (hpage : s.page cfg ≠ []) (hlines : lines.map (·.1) = (s.page cfg).map (·.seq))
      (hjson : ∀ l ∈ lines, cfg.Json l.1 l.2) :
    Step cfg s .poll { s with phase := .appending lines (s.hasMore cfg) pages }
  | append {lines : List (ℕ × Str)} {last : ℕ × Str} {more : Bool} {pages : ℕ}
      (h : s.phase = .appending lines more pages) (hlast : lines.getLast? = some last) :
    Step cfg s .append
      { s with file := s.file ++ pageText lines, phase := .appended last.1 more pages }
  | checkpoint {last : ℕ} {more : Bool} {pages : ℕ} (h : s.phase = .appended last more pages) :
    Step cfg s .checkpoint
      { s with
        cursor := some last
        phase :=
          if !more then .finished
          else if cfg.maxPages ≤ pages + 1 then .cutOff
          else .polling (pages + 1) }
  -- an exception, or the end of the process
  | crash {written : Str} (h : written <+: pageText s.phase.lines) :
    Step cfg s (.crash written) { s with file := s.file ++ written, phase := .off }

/-- The event has a complete line of its own. -/
def Has (cfg : Config ε) (file : Str) (n : ℕ) : Prop :=
  ∃ line ∈ (scan [] file).1, cfg.Json n line

/-- No page overtakes an open transaction, and a crash does not leave an unfinished line behind
unless the page's first event has a line already. -/
def Orderly (cfg : Config ε) (s : State ι ε) : Label ι ε → Prop
  | .poll => ∀ row ∈ s.page cfg, ∀ i, ∀ r ∈ s.table.drawn i, cfg.wanted r.event = true →
      row.seq < r.seq
  | .crash written => ∀ first ∈ s.phase.lines.head?,
      Whole (s.file ++ written) ∨ Has cfg (s.file ++ written) first.1
  | _ => True

def RunWhile [DecidableEq ι] (cfg : Config ε) (C : State ι ε → Label ι ε → Prop) :
    State ι ε → State ι ε → Prop :=
  Relation.ReflTransGen fun s t => ∃ l, C s l ∧ Step cfg s l t

def State.init : State ι ε := ⟨.empty, [], none, .off⟩

/-! ### Lines stay -/

variable {cfg : Config ε} {s s' : State ι ε} {file : Str} {n : ℕ}
variable {lines : List (ℕ × Str)} {phase : Phase} {more : Bool} {pages : ℕ} {l : Label ι ε}

theorem Has.append (h : Has cfg file n) (more : Str) : Has cfg (file ++ more) n := by
  obtain ⟨line, hline, hjson⟩ := h
  refine ⟨line, ?_, hjson⟩
  rw [scan_append]
  exact mem_append_left _ hline

theorem has_page {first : ℕ × Str} (hjson : ∀ l ∈ first :: lines, cfg.Json l.1 l.2) (file : Str) :
    Whole (file ++ pageText (first :: lines)) ∧
      (Whole file → Has cfg (file ++ pageText (first :: lines)) first.1) ∧
      ∀ l ∈ lines, Has cfg (file ++ pageText (first :: lines)) l.1 := by
  have hnew : ∀ l ∈ first :: lines, '\n' ∉ l.2 := fun l hl => cfg.no_newline _ _ (hjson l hl)
  have hscan := scan_pageText (fun l hl => hnew l (mem_cons_of_mem _ hl)) first
    (hnew first mem_cons_self) (scan [] file).2
  refine ⟨?_, fun hwho => ?_, fun l hl => ?_⟩
  · rw [Whole, scan_append, hscan]
  · refine ⟨first.2, ?_, hjson first mem_cons_self⟩
    rw [scan_append, hscan]
    rw [Whole] at hwho
    simp [hwho]
  · refine ⟨l.2, ?_, hjson l (mem_cons_of_mem _ hl)⟩
    rw [scan_append, hscan]
    exact mem_append_right _ (mem_cons_of_mem _ (List.mem_map_of_mem hl))

/-! ### The invariant -/

/-- What the puller relies on while it is at work. -/
def Phase.Ready (cfg : Config ε) (table : Table ι ε) (file : Str) (cursor : Option ℕ) : Phase → Prop
  | .appending lines _ _ => ∃ first rest last, lines = first :: rest ∧ lines.getLast? = some last ∧
      (∀ l ∈ lines, cfg.Json l.1 l.2) ∧ Least (cfg.wanted · = true) table cursor first.1 ∧
      CaughtUp (cfg.wanted · = true) table (fun n => Has cfg file n ∨ ∃ l ∈ lines, l.1 = n)
        (some last.1)
  | .appended last _ _ =>
    Whole file ∧ CaughtUp (cfg.wanted · = true) table (Has cfg file) (some last)
  | _ => True

/-- **The invariant**: what the cursor has passed is in the file, and an unfinished line is in
nobody's way. -/
structure Inv (cfg : Config ε) (s : State ι ε) : Prop where
  below : s.table.Below
  caughtUp : CaughtUp (cfg.wanted · = true) s.table (Has cfg s.file) s.cursor
  whole : Whole s.file ∨ ∃ n, Least (cfg.wanted · = true) s.table s.cursor n ∧ Has cfg s.file n
  ready : s.phase.Ready cfg s.table s.file s.cursor

theorem inv_init (cfg : Config ε) : Inv cfg (State.init : State ι ε) :=
  ⟨Table.below_empty, caughtUp_none _ _ _, .inl rfl, trivial⟩

theorem Phase.Ready.apply [DecidableEq ι] {table : Table ι ε} {cursor : Option ℕ}
    (h : phase.Ready cfg table file cursor) (op : Op ι ε) :
    phase.Ready cfg (table.apply op) file cursor := by
  cases phase with
  | appending =>
    obtain ⟨first, rest, last, hlines, hlast, hjson, hlea, hcau⟩ := h
    exact ⟨first, rest, last, hlines, hlast, hjson, hlea.apply op, hcau.apply op⟩
  | appended => exact ⟨h.1, h.2.apply op⟩
  | off | polling | finished | cutOff => trivial

theorem Inv.rest (h : Inv cfg s) (hph : phase.Ready cfg s.table s.file s.cursor) :
    Inv cfg { s with phase } :=
  ⟨h.below, h.caughtUp, h.whole, hph⟩

theorem page_sorted (hlines : lines.map (·.1) = (s.page cfg).map (·.seq)) :
    lines.Pairwise (·.1 ≤ ·.1) := by
  have hsor : (lines.map (·.1)).Pairwise (· ≤ ·) := by
    rw [hlines, pairwise_map]
    exact nextRows_sorted _ _ _ _
  exact pairwise_map.mp hsor

/-- **Reading a page**: its first line is the next one wanted, and with its lines everything up
to its last one is there. -/
theorem Inv.poll (h : Inv cfg s) (hC : Orderly cfg s .poll) (hpage : s.page cfg ≠ [])
    (hlines : lines.map (·.1) = (s.page cfg).map (·.seq)) (hjson : ∀ l ∈ lines, cfg.Json l.1 l.2) :
    Phase.Ready cfg s.table s.file s.cursor (.appending lines more pages) := by
  have hne : lines ≠ [] := by
    rintro rfl
    exact hpage (map_eq_nil_iff.mp hlines.symm)
  have hsor := page_sorted hlines
  -- lines and rows of the page have the same numbers
  have hrow : ∀ l ∈ lines, ∃ row ∈ s.page cfg, row.seq = l.1 := by
    intro l hl
    have hmem : l.1 ∈ (s.page cfg).map (·.seq) := hlines ▸ List.mem_map_of_mem hl
    exact List.mem_map.mp hmem
  have hline : ∀ row ∈ s.page cfg, ∃ l ∈ lines, l.1 = row.seq := by
    intro row hrow
    have hmem : row.seq ∈ lines.map (·.1) := hlines ▸ List.mem_map_of_mem hrow
    exact List.mem_map.mp hmem
  obtain ⟨first, rest, rfl⟩ := exists_cons_of_ne_nil hne
  obtain ⟨init, last, hinit⟩ := (eq_nil_or_concat _).resolve_left hne
  have hlast : last ∈ first :: rest := by
    rw [hinit]
    simp
  have hfst : ∀ l ∈ first :: rest, first.1 ≤ l.1 := by
    intro l hl
    rcases mem_cons.mp hl with rfl | hl
    · exact le_rfl
    · exact (pairwise_cons.mp hsor).1 l hl
  have hmax : ∀ l ∈ first :: rest, l.1 ≤ last.1 := by
    intro l hl
    rw [hinit, concat_eq_append] at hl hsor
    rcases mem_append.mp hl with hl | hl
    · exact (pairwise_append.mp hsor).2.2 l hl last (mem_singleton_self _)
    · rw [mem_singleton.mp hl]
  -- the first line is the next one wanted, and nothing is missing before the last
  obtain ⟨row, hrowm, hrows⟩ := hrow first mem_cons_self
  obtain ⟨lastRow, hlas, hlastseq⟩ := hrow last hlast
  have hin := mem_nextRows hrowm
  refine ⟨first, rest, last, rfl, by rw [hinit]; simp, hjson, ?_, ?_⟩
  · refine ⟨⟨row, hin.1, hin.2.1, hrows⟩, hrows ▸ hin.2.2, hrows ▸ h.below.rows row hin.1,
      fun r hr hw hn => ?_, fun i r hr hw => ?_⟩
    · rcases nextRows_complete cfg.limit hr hw hn with hmem | ⟨-, hall⟩
      · obtain ⟨l, hl, hseq⟩ := hline r hmem
        exact hseq ▸ hfst l hl
      · exact hrows ▸ hall row hrowm
    · exact hrows ▸ (hC row hrowm i r hr hw).le
  · refine ⟨fun r hr hw hn => ?_, fun i r hr hw => ?_, fun m hm => ?_⟩
    · by_cases hcur : UpTo s.cursor r.seq
      · exact .inl (h.caughtUp.reached r hr hw hcur)
      · right
        rcases nextRows_complete cfg.limit hr hw hcur with hmem | ⟨-, hall⟩
        · exact hline r hmem
        · have hle := hall lastRow hlas
          have hge := upTo_some.mp hn
          exact ⟨last, hlast, by omega⟩
    · rw [upTo_some, ← hlastseq]
      exact not_le.mpr (hC lastRow hlas i r hr hw)
    · rw [← mem_some_iff.mp hm, ← hlastseq]
      exact h.below.rows lastRow (mem_nextRows hlas).1

/-- **Appending a page**: also behind an unfinished line. -/
theorem Inv.append (h : Inv cfg s) {last : ℕ × Str} (hph : s.phase = .appending lines more pages)
    (hlast : lines.getLast? = some last) :
    Inv cfg { s with file := s.file ++ pageText lines, phase := .appended last.1 more pages } := by
  have hrdy := h.ready
  rw [hph] at hrdy
  obtain ⟨first, rest, last', rfl, hlast', hjson, hlea, hcau⟩ := hrdy
  obtain rfl : last = last' := some_inj.mp (hlast.symm.trans hlast')
  obtain ⟨hwho, hfst, hrest⟩ := has_page hjson s.file
  have hhas : ∀ n, (Has cfg s.file n ∨ ∃ l ∈ first :: rest, l.1 = n) →
      Has cfg (s.file ++ pageText (first :: rest)) n := by
    rintro n (hn | ⟨l, hl, rfl⟩)
    · exact hn.append _
    · rcases mem_cons.mp hl with rfl | hl
      · rcases h.whole with hw | ⟨n, hn, hhas⟩
        · exact hfst hw
        · rw [hlea.unique hn]
          exact hhas.append _
      · exact hrest l hl
  exact ⟨h.below, h.caughtUp.mono fun n hn => hn.append _, .inl hwho, hwho, hcau.mono hhas⟩

theorem Inv.crash (h : Inv cfg s) {written : Str} (hC : Orderly cfg s (.crash written))
    (hwri : written <+: pageText s.phase.lines) :
    Inv cfg { s with file := s.file ++ written, phase := .off } := by
  refine ⟨h.below, h.caughtUp.mono fun n hn => hn.append _, ?_, trivial⟩
  cases hph : s.phase with
  | appending =>
    have hrdy := h.ready
    rw [hph] at hrdy
    obtain ⟨first, rest, last, rfl, -, -, hlea, -⟩ := hrdy
    rcases hC first (by rw [hph]; rfl) with hw | hhas
    · exact .inl hw
    · exact .inr ⟨first.1, hlea, hhas⟩
  | off | polling | appended | finished | cutOff =>
    rw [hph] at hwri
    obtain rfl := prefix_nil.mp hwri
    simpa using h.whole

theorem Inv.step [DecidableEq ι] (h : Inv cfg s) (hC : Orderly cfg s l) (hstep : Step cfg s l s') :
    Inv cfg s' := by
  cases hstep with
  | ingest op =>
    refine ⟨h.below.apply op, h.caughtUp.apply op, ?_, h.ready.apply op⟩
    exact h.whole.imp_right fun ⟨n, hn, hhas⟩ => ⟨n, hn.apply op, hhas⟩
  | start | pollEmpty => exact h.rest trivial
  | poll hph hpage hlines hjson => exact h.rest (h.poll hC hpage hlines hjson)
  | append hph hlast => exact h.append hph hlast
  | @checkpoint last more pages hph =>
    have hrdy := h.ready
    rw [hph] at hrdy
    refine ⟨h.below, hrdy.2, .inl hrdy.1, ?_⟩
    repeat' split
    all_goals trivial
  | crash hwri => exact h.crash hC hwri

theorem RunWhile.inv [DecidableEq ι] (hrun : RunWhile cfg (Orderly cfg) s s') (h : Inv cfg s) :
    Inv cfg s' := by
  induction hrun with
  | refl => exact h
  | tail _ hstep ih =>
    obtain ⟨l, hC, hstep⟩ := hstep
    exact ih.step hC hstep

/-! ### A further run -/

/-- What a run of the puller does that is not killed. -/
def Label.Pulls : Label ι ε → Prop
  | .poll | .append | .checkpoint => True
  | .ingest _ | .start | .crash _ => False

/-- Where a page is the last one, every event is up to its end. -/
def Phase.AtEnd (cfg : Config ε) (rows : List (Row ε)) (cursor : Option ℕ) : Phase → Prop
  | .appending lines more _ => more = false → ∀ r ∈ rows, cfg.wanted r.event = true →
      ∃ l ∈ lines.getLast?, r.seq ≤ l.1
  | .appended last more _ => more = false → ∀ r ∈ rows, cfg.wanted r.event = true → r.seq ≤ last
  | .finished => ∀ r ∈ rows, cfg.wanted r.event = true → UpTo cursor r.seq
  | .off | .polling _ | .cutOff => True

/-- Nothing is being ingested. -/
structure Quiet (cfg : Config ε) (s : State ι ε) : Prop where
  inv : Inv cfg s
  drawn : ∀ i, s.table.drawn i = []
  atEnd : s.phase.AtEnd cfg s.table.rows s.cursor

theorem Quiet.orderly (h : Quiet cfg s) (hl : l.Pulls) : Orderly cfg s l := by
  cases l with
  | poll =>
    intro row _ i r hr
    rw [h.drawn i] at hr
    simp at hr
  | append | checkpoint => trivial
  | ingest | start | crash => exact hl.elim

theorem page_atEnd (hpage : s.page cfg ≠ []) (hlines : lines.map (·.1) = (s.page cfg).map (·.seq))
    (pages : ℕ) :
    Phase.AtEnd cfg s.table.rows s.cursor (.appending lines (s.hasMore cfg) pages) := by
  intro hmore r hr hw
  have hne : lines ≠ [] := by
    rintro rfl
    exact hpage (map_eq_nil_iff.mp hlines.symm)
  obtain ⟨init, last, hinit⟩ := (eq_nil_or_concat lines).resolve_left hne
  have hsor := page_sorted hlines
  refine ⟨last, by rw [hinit]; simp, ?_⟩
  -- on the page, or before it; nothing comes after, as there is no more
  by_cases hcur : UpTo s.cursor r.seq
  · have hmem : last.1 ∈ (s.page cfg).map (·.seq) := by
      rw [← hlines, hinit]
      simp
    obtain ⟨lastRow, hlast, hseq⟩ := List.mem_map.mp hmem
    obtain ⟨m, hm, hle⟩ := hcur
    have haft : ¬lastRow.seq ≤ m := fun h => (mem_nextRows hlast).2.2 ⟨m, hm, h⟩
    omega
  · rcases nextRows_complete cfg.limit hr hw hcur with hmem | ⟨hlong, -⟩
    · have hmem' : r.seq ∈ lines.map (·.1) := hlines ▸ List.mem_map_of_mem hmem
      obtain ⟨l, hl, hseq⟩ := List.mem_map.mp hmem'
      rw [hinit, concat_eq_append] at hl hsor
      rcases mem_append.mp hl with hl | hl
      · exact hseq ▸ (pairwise_append.mp hsor).2.2 l hl last (mem_singleton_self _)
      · rw [← hseq, mem_singleton.mp hl]
    · exact absurd hmore (by simpa [State.hasMore] using hlong)

theorem Quiet.step [DecidableEq ι] (h : Quiet cfg s) (hl : l.Pulls) (hstep : Step cfg s l s') :
    Quiet cfg s' := by
  have hinv := h.inv.step (h.orderly hl) hstep
  cases hstep with
  | ingest | start | crash => exact hl.elim
  | pollEmpty hph hpage =>
    refine ⟨hinv, h.drawn, fun r hr hw => ?_⟩
    -- an event that is waited for would be on the page
    by_contra hcur
    rcases nextRows_complete cfg.limit hr hw hcur with hmem | ⟨hlong, -⟩
    · exact absurd (hpage ▸ hmem : r ∈ []) not_mem_nil
    · have hlen : (s.page cfg).length =
          min cfg.limit (hits cfg.wanted s.cursor s.table.rows).length := length_take
      have hpos := cfg.limit_pos
      rw [hpage, length_nil] at hlen
      dsimp only at hlong
      omega
  | poll hph hpage hlines => exact ⟨hinv, h.drawn, page_atEnd hpage hlines _⟩
  | append hph hlast =>
    have hend := h.atEnd
    rw [hph] at hend
    refine ⟨hinv, h.drawn, fun hmore r hr hw => ?_⟩
    obtain ⟨l, hl, hle⟩ := hend hmore r hr hw
    obtain rfl := some_inj.mp (hlast.symm.trans hl)
    exact hle
  | @checkpoint last more pages hph =>
    have hend := h.atEnd
    rw [hph] at hend
    refine ⟨hinv, h.drawn, ?_⟩
    cases more with
    | true =>
      dsimp only
      repeat' split
      all_goals trivial
    | false =>
      intro r hr hw
      exact upTo_some.mpr (hend rfl r hr hw)

theorem RunWhile.quiet [DecidableEq ι] (hrun : RunWhile cfg (fun _ l => l.Pulls) s s')
    (h : Quiet cfg s) : Quiet cfg s' := by
  induction hrun with
  | refl => exact h
  | tail _ hstep ih =>
    obtain ⟨l, hl, hstep⟩ := hstep
    exact ih.step hl hstep

/-- **Nothing is skipped**: once ingestion has stopped and a further run has come to the last
page, every committed event has a line of its own, if no page overtook an open transaction and
no crash tore the first line of a page. -/
theorem pull_complete [DecidableEq ι] {s₁ : State ι ε} (hrun : RunWhile cfg (Orderly cfg) .init s)
    (hdrawn : ∀ i, s.table.drawn i = []) (hstart : Step cfg s .start s₁)
    (hfurther : RunWhile cfg (fun _ l => l.Pulls) s₁ s') (hfinished : s'.phase = .finished) :
    ∀ r ∈ s'.table.rows, cfg.wanted r.event = true → Has cfg s'.file r.seq := by
  have hinv : Inv cfg s := hrun.inv (inv_init cfg)
  have hquiet₁ : Quiet cfg s₁ := by
    cases hstart
    exact ⟨hinv.rest trivial, hdrawn, trivial⟩
  have hq : Quiet cfg s' := hfurther.quiet hquiet₁
  have hend := hq.atEnd
  rw [hfinished] at hend
  intro r hr hw
  exact hq.inv.caughtUp.reached r hr hw (hend r hr hw)

/-! ### Sample runs -/

/-- One event a page; its line is a tally of its number. -/
def tally : Config Unit where
  wanted _ := true
  limit := 1
  limit_pos := Nat.one_pos
  maxPages := 20
  Json n line := line = List.replicate n '1'
  no_newline n line h := by
    rintro hmem
    rw [h] at hmem
    exact absurd (eq_of_mem_replicate hmem) (by decide)

section Runs

variable {C : State Bool Unit → Label Bool Unit → Prop} {table : Table Bool Unit} {file : Str}
  {cursor : Option ℕ} {phase : Phase}

theorem run_ingest (hC : ∀ s op, C s (.ingest op)) (ops : List (Op Bool Unit)) :
    RunWhile tally C ⟨table, file, cursor, phase⟩
      ⟨ops.foldl Table.apply table, file, cursor, phase⟩ := by
  induction ops generalizing table with
  | nil => exact .refl
  | cons op ops ih => exact .head ⟨_, hC _ op, .ingest op⟩ ih

theorem run_page (l : ℕ × Str) (hpoll : Step tally ⟨table, file, cursor, .polling pages⟩ .poll
      ⟨table, file, cursor, .appending [l] false pages⟩)
    (hC : C ⟨table, file, cursor, .polling pages⟩ .poll)
    (hC' : ∀ s, C s .append ∧ C s .checkpoint) :
    RunWhile tally C ⟨table, file, cursor, .polling pages⟩
      ⟨table, file ++ pageText [l], some l.1, .finished⟩ := by
  have hck : Step tally ⟨table, file ++ pageText [l], cursor, .appended l.1 false pages⟩
      .checkpoint _ := .checkpoint rfl
  refine .head ⟨_, hC, hpoll⟩ (.head ⟨_, (hC' _).1, .append rfl rfl⟩ ?_)
  exact .single ⟨_, (hC' _).2, hck⟩

end Runs

/-- What `ops` make of the empty table. -/
def ingested (ops : List (Op Bool Unit)) : Table Bool Unit := ops.foldl Table.apply .empty

/-- Two events; the second one is committed after a first run has fetched the first. -/
theorem pull_sample : Has tally (pageText [(1, ['1'])] ++ pageText [(2, ['1', '1'])]) 1 ∧
    Has tally (pageText [(1, ['1'])] ++ pageText [(2, ['1', '1'])]) 2 := by
  let t₁ := ingested [.insert true (), .commit true]
  let t₂ := ingested [.insert true (), .commit true, .insert false (), .commit false]
  have hdra : ∀ i, t₁.drawn i = [] := by decide
  have hing : RunWhile tally (Orderly tally) .init ⟨t₁, [], none, .off⟩ :=
    run_ingest (fun _ _ => trivial) _
  have hpull : RunWhile tally (Orderly tally) ⟨t₁, [], none, .polling 0⟩
      ⟨t₁, pageText [(1, ['1'])], some 1, .finished⟩ :=
    run_page (1, ['1']) (.poll rfl (by decide) (by decide) (by simp [tally]))
      (fun row _ i r hr => absurd (hdra i ▸ hr : r ∈ []) not_mem_nil) fun _ => ⟨trivial, trivial⟩
  have hrun : RunWhile tally (Orderly tally) .init
      ⟨t₂, pageText [(1, ['1'])], some 1, .finished⟩ :=
    (hing.trans (hpull.head ⟨.start, trivial, .start (.inl rfl)⟩)).trans
      (run_ingest (fun _ _ => trivial) [.insert false (), .commit false])
  have hfur : RunWhile tally (fun _ l => l.Pulls)
      ⟨t₂, pageText [(1, ['1'])], some 1, .polling 0⟩ ⟨t₂, _, some 2, .finished⟩ :=
    run_page (2, ['1', '1']) (.poll rfl (by decide) (by decide) (by simp [tally])) trivial
      fun _ => ⟨trivial, trivial⟩
  have hall := pull_complete hrun (by decide) (.start (.inr (.inl rfl))) hfur rfl
  exact ⟨hall ⟨1, ()⟩ (by decide) rfl, hall ⟨2, ()⟩ (by decide) rfl⟩

/-- A run in which every step meets `C`, then a further run, and an event that is still missing. -/
def Skips (C : State Bool Unit → Label Bool Unit → Prop) : Prop :=
  ∃ s s₁ s' : State Bool Unit, RunWhile tally C .init s ∧ (∀ i, s.table.drawn i = []) ∧
    Step tally s .start s₁ ∧ RunWhile tally (fun _ l => l.Pulls) s₁ s' ∧ s'.phase = .finished ∧
    ∃ r ∈ s'.table.rows, tally.wanted r.event = true ∧ ¬Has tally s'.file r.seq

/-- The first event is committed after the second one has been fetched. -/
theorem skips_overtaken : Skips (fun s l => l = .poll ∨ Orderly tally s l) := by
  let t₁ := ingested [.insert true (), .insert false (), .commit false]
  let t₂ := t₁.apply (.commit true)
  let file := pageText [(2, ['1', '1'])]
  have hing : RunWhile tally (fun s l => l = .poll ∨ Orderly tally s l) .init
      ⟨t₁, [], none, .off⟩ := run_ingest (fun _ _ => .inr trivial) _
  have hpull : RunWhile tally (fun s l => l = .poll ∨ Orderly tally s l)
      ⟨t₁, [], none, .polling 0⟩ ⟨t₁, file, some 2, .finished⟩ :=
    run_page (2, ['1', '1']) (.poll rfl (by decide) (by decide) (by simp [tally])) (.inl rfl)
      fun _ => ⟨.inr trivial, .inr trivial⟩
  have hrun : RunWhile tally (fun s l => l = .poll ∨ Orderly tally s l) .init
      ⟨t₂, file, some 2, .finished⟩ :=
    (hing.trans (hpull.head ⟨.start, .inr trivial, .start (.inl rfl)⟩)).tail
      ⟨.ingest (.commit true), .inr trivial, .ingest (.commit true)⟩
  -- the further run finds nothing after 2
  have hfur : RunWhile tally (fun _ l => l.Pulls) ⟨t₂, file, some 2, .polling 0⟩
      ⟨t₂, file, some 2, .finished⟩ := .single ⟨.poll, trivial, .pollEmpty rfl (by decide)⟩
  refine ⟨_, _, _, hrun, by decide, .start (.inr (.inl rfl)), hfur, rfl, ⟨1, ()⟩, by decide,
    rfl, ?_⟩
  simp [Has, tally, file, pageText, scan]

/-- A crash within the first line, which the next run goes on with. -/
theorem skips_torn : Skips (fun s l => (∃ written, l = .crash written) ∨ Orderly tally s l) := by
  let table := ingested [.insert true (), .commit true]
  have hdra : ∀ i, table.drawn i = [] := by decide
  have hord : Orderly tally ⟨table, [], none, .polling 0⟩ .poll := by
    intro row _ i r hr
    exact absurd (hdra i ▸ hr : r ∈ []) not_mem_nil
  have hing : RunWhile tally (fun s l => (∃ written, l = .crash written) ∨ Orderly tally s l)
      .init ⟨table, [], none, .off⟩ := run_ingest (fun _ _ => .inr trivial) _
  have hpoll : Step tally ⟨table, [], none, .polling 0⟩ .poll
      ⟨table, [], none, .appending [(1, ['1'])] false 0⟩ :=
    .poll rfl (by decide) (by decide) (by simp [tally])
  have hcra : Step tally ⟨table, [], none, .appending [(1, ['1'])] false 0⟩ (.crash ['1'])
      ⟨table, ['1'], none, .off⟩ := .crash (by decide)
  have hrun : RunWhile tally (fun s l => (∃ written, l = .crash written) ∨ Orderly tally s l)
      .init ⟨table, ['1'], none, .off⟩ :=
    ((hing.tail ⟨.start, .inr trivial, .start (.inl rfl)⟩).tail ⟨_, .inr hord, hpoll⟩).tail
      ⟨_, .inl ⟨_, rfl⟩, hcra⟩
  have hfur : RunWhile tally (fun _ l => l.Pulls) ⟨table, ['1'], none, .polling 0⟩
      ⟨table, ['1'] ++ pageText [(1, ['1'])], some 1, .finished⟩ :=
    run_page (1, ['1']) (.poll rfl (by decide) (by decide) (by simp [tally])) trivial
      fun _ => ⟨trivial, trivial⟩
  refine ⟨_, _, _, hrun, hdra, .start (.inl rfl), hfur, rfl, ⟨1, ()⟩, by decide, rfl, ?_⟩
  simp [Has, tally, pageText, scan]

theorem overtaken_and_torn :
    Skips (fun s l => l = .poll ∨ Orderly tally s l) ∧
      Skips (fun s l => (∃ written, l = .crash written) ∨ Orderly tally s l) :=
  ⟨skips_overtaken, skips_torn⟩

end Control.SiemPull
