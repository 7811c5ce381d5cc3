import TripleScript.Proofs.Run.ReadOnly
import TripleScript.Proofs.Run.Splitting
import TripleScript.Proofs.Statement.Layout
import TripleScript.Proofs.Store.Seeding

/-!
# A seed text as a script

A line of a seed text is a triple, and `INSERT` in front of it makes a statement
of it. The two are read in different ways: a seed line by the reader of one
triple, which then looks for open terms, a statement by the reader of statements,
which reads a list of triples and leaves open terms to its compilation. They
accept the same texts, and for the same triple (`Command.compile_insert_iff`),
since the grammar has the same rule for a triple on both ways and a list that
gives one triple is a list of one item.

So a seed text can be given to a store as a script, with `INSERT` in front of
each line that counts (`insertScript`). Seeding puts in its triples all at once
and the script one by one, which comes to the same store
(`seeding_agrees_with_inserting`).
-/

namespace TripleScript

open Text

/-! ## One triple -/

/-- **A statement inserts one triple** if and only if it is the insertion of one
that names nodes. -/
theorem Statement.compile_eq_insert_iff {st : Statement} {t : Triple} :
    st.compile = .ok (.insert [t]) ↔ ∃ p, st = .insert [p] ∧ p.ground = .ok t := by
  constructor
  · intro h
    cases st with
    | insert ps =>
      obtain ⟨ts, hts, heq⟩ := map_eq_ok_iff.mp h
      cases heq
      unfold groundTriples at hts
      split at hts
      · cases hts
      · obtain ⟨p, qs, hp, hqs, rfl⟩ := List.forall₂_cons_right_iff.mp (mapM_eq_ok_iff.mp hts)
        obtain rfl := List.forall₂_nil_right_iff.mp hqs
        exact ⟨p, rfl, mapError_eq_ok_iff.mp hp⟩
    | delete ps =>
      obtain ⟨ts, -, heq⟩ := map_eq_ok_iff.mp h
      cases heq
    | select q =>
      obtain ⟨q', -, heq⟩ := map_eq_ok_iff.mp h
      cases heq
  · rintro ⟨p, rfl, hp⟩
    have hone : groundTriples .insert [p] = .ok [t] := by
      have hfew : ¬[p].length > maxTriples := by
        show ¬1 > maxTriples
        decide
      rw [groundTriples, if_neg hfew, mapM_eq_ok_iff]
      exact .cons (mapError_eq_ok_iff.mpr hp) .nil
    exact map_eq_ok_iff.mpr ⟨[t], hone, rfl⟩

/-- **A text is compiled to the insertion of one triple** if and only if it splits
into lexemes from which the grammar derives the insertion of a triple that names
these nodes. -/
theorem Command.compile_eq_insert_iff {text : String} {t : Triple} :
    Command.compile text = .ok (.insert [t])
      ↔ ∃ ls p, Splits text.toList ls ∧ (Statement.insert [p]).DerivedFrom ls
        ∧ p.ground = .ok t := by
  constructor
  · intro h
    unfold Command.compile at h
    split at h
    · cases h
    · next st hparse =>
      obtain ⟨p, rfl, hp⟩ := Statement.compile_eq_insert_iff.mp (mapError_eq_ok_iff.mp h)
      obtain ⟨ls, hls, hst⟩ := exists_derivedFrom_of_parse hparse
      exact ⟨ls, p.unplaced, hls, hst, hp⟩
  · rintro ⟨ls, p, hls, hst, hp⟩
    obtain ⟨st, hparse, hunplaced⟩ := map_eq_ok_iff.mp (parse_of_derivedFrom hls hst)
    obtain ⟨p', rfl, rfl⟩ : ∃ p', st = .insert [p'] ∧ p'.unplaced = p := by
      cases st with
      | insert ps =>
        obtain ⟨p', rfl, hp'⟩ := List.map_eq_singleton_iff.mp (Statement.insert.inj hunplaced)
        exact ⟨p', rfl, hp'⟩
      | delete ps => cases hunplaced
      | select q => cases hunplaced
    unfold Command.compile
    rw [hparse]
    exact mapError_eq_ok_iff.mpr (Statement.compile_eq_insert_iff.mpr ⟨p', rfl, hp⟩)

/-- A text with `INSERT` and a blank in front splits into the keyword and the
lexemes of the text. -/
theorem splits_insert_iff {text : String} {ls : List Lexeme} :
    Splits ("INSERT " ++ text).toList ls
      ↔ ∃ ls', Splits text.toList ls' ∧ ls = .word "INSERT" :: ls' := by
  have hkeyword : tokens "INSERT" = .ok [⟨.word "INSERT", ⟨0, 6⟩⟩] := by decide +kernel
  have hblank : Blanks [' '] := by decide
  have htext : ("INSERT " ++ text).toList = "INSERT".toList ++ ([' '] ++ text.toList) := by
    rw [String.toList_append]
    rfl
  rw [htext]
  exact splits_gap_iff (tokens_eq_ok_iff.mp hkeyword) (hblank.gap (List.cons_ne_nil _ _) _ _)

/-- **A text is a triple of nodes** if and only if `INSERT` and the text insert
that triple and no other. -/
theorem Command.compile_insert_iff (text : String) (t : Triple) :
    Triple.parse text = .ok t ↔ Command.compile ("INSERT " ++ text) = .ok (.insert [t]) := by
  rw [Triple.parse_eq_ok_iff, Command.compile_eq_insert_iff]
  constructor
  · rintro ⟨ls, p, hls, hp, hground⟩
    exact ⟨_, p, splits_insert_iff.mpr ⟨ls, hls, rfl⟩, .insert ⟨"INSERT", rfl, rfl⟩ (.last hp),
      hground⟩
  · rintro ⟨_, p, hsplits, hst, hground⟩
    obtain ⟨ls, hls, rfl⟩ := splits_insert_iff.mp hsplits
    refine ⟨ls, p, hls, ?_, hground⟩
    cases hst with
    | insert _ triples =>
      cases triples with
      | last hp => exact hp
      | more _ others => exact absurd rfl others.ne_nil

/-! ## All lines -/

/-- **A seed text as a script**: `INSERT` in front of each line that counts, and
nothing else. -/
def insertScript (text : String) : String :=
  "\n".intercalate ((seedLines text).map fun x => "INSERT " ++ x.text)

/-- A text that is a statement is one with `INSERT` in front of it. -/
theorem Script.IsStatementText.insert {text : String} (h : IsStatementText text) :
    IsStatementText ("INSERT " ++ text) := by
  obtain ⟨htrim, hne, -⟩ := lineContent?_of_eq_some h.content
  have hlist : ("INSERT " ++ text).toList = 'I' :: ("NSERT ".toList ++ text.toList) := by
    rw [String.toList_append]
    rfl
  refine ⟨?_, ?_⟩
  · rw [String.toList_append, List.mem_append, not_or]
    exact ⟨by decide, h.oneLine⟩
  · have hself : trim ("INSERT " ++ text).toList = ("INSERT " ++ text).toList := by
      refine trim_eq_self ?_ ?_
      · rw [hlist]
        rintro _ ⟨⟩
        decide
      · rw [String.toList_append, List.getLast?_append_of_ne_nil _ hne, htrim]
        exact getLast?_trim _
    unfold lineContent?
    rw [hself, hlist]
    show (if 'I' = '#' then none else some _) = _
    rw [if_neg (by decide), ← hlist, String.ofList_toList]

/-- The lines of a seed text that count are such. -/
theorem isStatementText_of_mem_seedLines {text : String} {x : SeedLine} (hx : x ∈ seedLines text) :
    Script.IsStatementText x.text := by
  obtain ⟨⟨l, k⟩, hl, hx⟩ := List.mem_filterMap.mp hx
  rw [SeedLine.ofLine?_eq] at hx
  obtain ⟨said, hsaid, rfl⟩ := Option.map_eq_some_iff.mp hx
  obtain ⟨htrim, -, hcontent⟩ := lineContent?_of_eq_some hsaid
  refine ⟨?_, hcontent⟩
  show '\n' ∉ said.toList
  rw [htrim]
  have hline : l ∈ text.toList.splitOn '\n' := List.fst_mem_of_mem_zipIdx hl
  exact fun hmem => notMem_of_mem_splitOn hline (mem_of_mem_trim hmem)

/-- **The script has one statement for each line that counts.** -/
theorem texts_insertScript (source text : String) :
    (Script.parse source (insertScript text)).statements.map ScriptStatement.text
      = (seedLines text).map fun x => "INSERT " ++ x.text := by
  have htexts : ∀ t ∈ (seedLines text).map (fun x => "INSERT " ++ x.text),
      Script.IsStatementText t := by
    intro t ht
    obtain ⟨x, hx, rfl⟩ := List.mem_map.mp ht
    exact (isStatementText_of_mem_seedLines hx).insert
  rw [insertScript, Script.statements_intercalate htexts, List.map_map]
  exact List.zipIdx_map_fst 1 _

/-! ## One by one -/

/-- Inserting triples one by one comes to the same as inserting them together. -/
theorem Indexes.insertAll_cons (ix : Indexes) (t : Triple) (ts : List Triple) :
    ((ix.insertAll [t]).2.insertAll ts).2 = (ix.insertAll (t :: ts)).2 := by
  ext u
  have hone : u ∈ (ix.insertAll [t]).2 ↔ u = t ∨ u ∈ ix :=
    mem_insertAll.trans (or_congr_left List.mem_singleton)
  rw [mem_insertAll, hone, mem_insertAll, List.mem_cons]
  exact or_left_comm.trans or_assoc.symm

/-- The session with more triples in its store. -/
def Session.withTriples (s : Session) (ts : List Triple) : Session :=
  s.withMemory { s.store.memory with triples := (s.store.memory.triples.insertAll ts).2 }

namespace Engine

variable (channel : ChannelSize) {s : Session}

/-- **An insertion that is not disturbed** succeeds on a store that takes writes,
and puts in what it names. -/
theorem carryOut_of_insert (hs : s.Calm) (hm : s.store.memory.readOnly = false) {text : String}
    {ts : List Triple} (hcompile : Command.compile text = .ok (.insert ts)) :
    standard.carryOut text channel s = (.succeeded {}, s.withTriples ts) := by
  have hgoes : ¬s.cancelled = true := by
    rw [hs.cancelled]
    exact Bool.false_ne_true
  have hrun : (Plan.insert ts).run true s
      = Ending.ofWrite (Session.write .insert (·.insert ts)) s := by
    rw [Plan.run, if_neg hgoes]
    rfl
  rw [carryOut_standard, hcompile]
  refine (carryOutCommand_of_write hs rfl hrun).trans ?_
  have hwritten : s.store.memory.written .insert (·.insert ts)
      = (.ok {}, (s.withTriples ts).store.memory) := by
    have hwrites : ¬s.store.memory.readOnly = true := by
      rw [hm]
      exact Bool.false_ne_true
    rw [MemoryStore.written, if_neg hwrites, MemoryStore.insert_eq_ok hm]
    rfl
  rw [hwritten]
  rfl

/-- **Insertions of one triple each**, carried out one after the other, are all
reached, succeed, and put in all of the triples. -/
theorem passage_of_inserts (hs : s.Calm) (hm : s.store.memory.readOnly = false) (total : ℕ)
    {xs : List ScriptStatement} {ts : List Triple}
    (h : List.Forall₂ (fun x t => Command.compile x.text = .ok (.insert [t])) xs ts) :
    let passed := standard.passage channel total xs s
    standard.Reaches channel xs s ∧ passed.2 = s.withTriples ts
      ∧ ∀ r ∈ passed.1.reports, r.status = .succeeded {} := by
  induction h generalizing s with
  | nil => exact ⟨trivial, rfl, nofun⟩
  | @cons x t xs ts hx _ ih =>
    intro passed
    obtain ⟨hreaches, hend, hstatus⟩ := ih (s := s.withTriples [t]) (hs.withMemory _) hm
    have hcarried : standard.carryOut x.text channel s = (.succeeded {}, s.withTriples [t]) :=
      carryOut_of_insert channel hs hm hx
    have hpassed : passed = ((.started x, s)
        :: (.recorded ⟨x.position, total, x.text, .succeeded {}⟩, s.withTriples [t])
        :: (standard.passage channel total xs (s.withTriples [t])).1,
          (standard.passage channel total xs (s.withTriples [t])).2) := by
      show standard.passage channel total (x :: xs) s = _
      rw [passage, hcarried]
    rw [hpassed]
    refine ⟨⟨hs.cancelled, by rwa [hcarried]⟩, ?_, ?_⟩
    · refine hend.trans ?_
      show s.withMemory { s.store.memory with
        triples := ((s.store.memory.triples.insertAll [t]).2.insertAll ts).2 } = _
      rw [Indexes.insertAll_cons]
      rfl
    · exact List.forall_mem_cons.mpr ⟨rfl, hstatus⟩

end Engine

/-- **Seed texts and insertions agree.** A text is a triple of nodes if and only
if `INSERT`, a blank and the text are compiled to the insertion of this triple
and no other, whatever else the text may be. So a store that takes writes, an
empty one for example, can be given a seed text as a script, with `INSERT` in
front of each line that counts. If the store can be seeded with the text, then
each statement of that script is one of these lines with `INSERT` in front, and
a run of the script that is not cancelled, with whatever sink, channel and way
to read the store, succeeds at every statement and leaves the store that seeding
does. -/
theorem seeding_agrees_with_inserting :
    (∀ (x : String) (t : Triple),
        Triple.parse x = .ok t ↔ Command.compile ("INSERT " ++ x) = .ok (.insert [t]))
      ∧ ∀ (σ : Type) (sink : Sink σ) (channel : ChannelSize) (access : Access) (state : σ)
        (m m' : MemoryStore) (n : ℕ) (path source text : String),
        m.readOnly = false → m.seed path (.ok text) = .ok (n, m') →
        let script := Script.parse source (insertScript text)
        let s := Session.begin { memory := m, access }
        script.statements.map ScriptStatement.text
            = (seedLines text).map (fun x => "INSERT " ++ x.text)
          ∧ ((Engine.standard.run sink script channel s state).session.cancelled = false →
            (Engine.standard.run sink script channel s state).session.store.memory = m'
              ∧ ∀ r ∈ (Engine.standard.log sink script channel s state).reports,
                r.status = .succeeded {}) := by
  refine ⟨Command.compile_insert_iff, ?_⟩
  intro σ sink channel access state m m' n path source text hm hseed script s
  have htexts := texts_insertScript source text
  refine ⟨htexts, fun h => ?_⟩
  obtain ⟨ts, hts, rfl⟩ := MemoryStore.exists_triples_of_seed hseed
  -- the triples that are seeded are those that the statements insert
  have hcompile : List.Forall₂ (fun x t => Command.compile x.text = .ok (.insert [t]))
      script.statements ts := by
    have hlines : List.Forall₂ (fun line t => Command.compile line = .ok (.insert [t]))
        ((seedLines text).map fun x => "INSERT " ++ x.text) ts := by
      rw [List.forall₂_map_left_iff]
      exact hts.imp fun x t hx => (Command.compile_insert_iff x.text t).mp hx
    rw [← htexts, List.forall₂_map_left_iff] at hlines
    exact hlines
  obtain ⟨hreaches, hend, hstatus⟩ :=
    Engine.passage_of_inserts channel (Session.calm_begin m access) hm script.size hcompile
  have hsession := (Engine.log_of_reaches state sink.quiet_hushed hreaches).2
  have hreports := Engine.reports_of_reaches state sink.quiet_hushed hreaches
  rw [Engine.run_hushed h, hend] at hsession
  rw [Engine.log_hushed h] at hreports
  refine ⟨?_, ?_⟩
  · rw [hsession]
    rfl
  · rw [hreports]
    exact hstatus

/-- A seed text with a comment, a blank line, carriage returns, blanks that are
wide, a node that imitates the end of a triple, and a triple twice, and the script
that comes of it. An empty store has two triples behind either. -/
theorem seeding_agrees_with_inserting_twice :
    let line := "(a, knows, \"b), (c\")"
    let triple : Triple := ⟨⟨"a"⟩, ⟨"knows"⟩, ⟨"b), (c"⟩⟩
    let text := "# people\r\n" ++ line ++ "\n\u2003\r\n\t(b,knows,a) \r\n" ++ line
    let m : MemoryStore := { name := "people" }
    let script := Script.parse "s" (insertScript text)
    let s := Session.begin { memory := m }
    script.statements.map ScriptStatement.text
        = ["INSERT " ++ line, "INSERT (b,knows,a)", "INSERT " ++ line]
      ∧ Triple.parse line = .ok triple
      ∧ Command.compile ("INSERT " ++ line) = .ok (.insert [triple])
      ∧ ∃ m', m.seed "p" (.ok text) = .ok (2, m')
        ∧ (Engine.standard.run Sink.silent script ⟨1⟩ s ()).session.store.memory = m' := by
  intro line triple text m script s
  have hlines : (seedLines text).map (fun x => "INSERT " ++ x.text)
      = ["INSERT " ++ line, "INSERT (b,knows,a)", "INSERT " ++ line] := by
    decide +kernel
  have hparse : Triple.parse line = .ok triple := by decide +kernel
  have hts : seedTriples "p" 1 (lines text.toList)
      = .ok [triple, ⟨⟨"b"⟩, ⟨"knows"⟩, ⟨"a"⟩⟩, triple] := by
    decide +kernel
  have hseed : ∃ m', m.seed "p" (.ok text) = .ok (2, m') := by
    have hnew : (m.triples.insertAll [triple, ⟨⟨"b"⟩, ⟨"knows"⟩, ⟨"a"⟩⟩, triple]).1 = 2 := by
      decide +kernel
    refine ⟨{ m with triples := (m.triples.insertAll
      [triple, ⟨⟨"b"⟩, ⟨"knows"⟩, ⟨"a"⟩⟩, triple]).2 }, ?_⟩
    simp only [MemoryStore.seed, hts, hnew]
  have hrun : (Engine.standard.run Sink.silent script ⟨1⟩ s ()).session.cancelled = false := by
    decide +kernel
  obtain ⟨m', hm'⟩ := hseed
  obtain ⟨hiff, hstore⟩ := seeding_agrees_with_inserting
  obtain ⟨htexts, hend⟩ :=
    hstore Unit Sink.silent ⟨1⟩ .indexed () m m' 2 "p" "s" text rfl hm'
  refine ⟨htexts.trans hlines, hparse, (hiff line triple).mp hparse, m', hm', ?_⟩
  rw [(hend hrun).1]

end TripleScript
