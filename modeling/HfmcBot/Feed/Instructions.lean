import HfmcBot.Feed.Archive
import HfmcBot.Feed.Decode
import HfmcBot.Foundation.StableSort

/-!
# From instructions to raw events

`handle_instructions` of `ingest.rs` tries three decoders on every instruction of the
pump program and counts what none of them takes.  At most one of the three takes an
instruction, since they tell their messages apart by the discriminator, so the order in
which they are tried does not matter.

* `Denotes`: the event an instruction stands for;
* `eventOf_decides`: the three decoders together find it;
* `handleInstructions_eq`: a list of instructions, one outcome for each;
* `handle_instructions_accounts`: every pump instruction is accounted for once, and what
  follows the parsed prefix of trades and migrations makes no difference.
-/

namespace HfmcBot

open Foundation

/-- A decoded instruction: `accounts` are keys in instruction order. -/
structure WireIx where
  program : String
  accounts : List String
  data : List UInt8
  deriving DecidableEq

/-! ## Raw events -/

/-- `{b:02x}`. -/
def hexByte (b : UInt8) : List Char := [Nat.digitChar (b.toNat / 16), Nat.digitChar (b.toNat % 16)]

/-- The creator in hex, two digits a byte. -/
def creatorHex (creator : PubkeyBytes) : String := String.ofList (creator.val.flatMap hexByte)

def createEvent (slot : UInt64) (c : CreateIx) : RawFeedEvent where
  slot := some slot
  mint := c.mint
  kind := .create c.bondingCurve (creatorHex c.creator) c.name c.symbol c.mayhem

def tradeEvent (slot : UInt64) (t : TradeIx) : RawFeedEvent where
  slot := some slot
  mint := t.mint
  kind := .trade t.bondingCurve (t.kind == .buy) t.v2 t.amountBaseUnits t.limitQuoteUnits

def migrateEvent (slot : UInt64) (m : MigrateIx) : RawFeedEvent where
  slot := some slot
  mint := m.mint
  kind := .migrate m.bondingCurve m.pool

/-- The decoders in turn. -/
def eventOf (slot : UInt64) (ix : WireIx) : Except Panic (Option RawFeedEvent) := do
  match ← parseCreate ix.program ix.accounts ix.data with
  | some c => pure (some (createEvent slot c))
  | none =>
      match ← parseTrade ix.program ix.accounts ix.data with
      | some t => pure (some (tradeEvent slot t))
      | none =>
          match ← parseMigrate ix.program ix.accounts ix.data with
          | some m => pure (some (migrateEvent slot m))
          | none => pure none

/-- One turn of the loop over the instructions. -/
def handleOne (slot : UInt64) (acc : List RawFeedEvent × Nat) (ix : WireIx) :
    Except Panic (List RawFeedEvent × Nat) :=
  if ix.program ≠ pumpProgram then .ok acc
  else do
    match ← eventOf slot ix with
    | some ev => pure (acc.1 ++ [ev], acc.2)
    | none => pure (acc.1, acc.2 + 1)

/-- Decode the instructions of one transaction: the events, sorted by mint, and the
number of unknown ones.  The keys are not looked at. -/
def handleInstructions (slot : UInt64) (_keys : List String) (ixs : List WireIx) :
    Except Panic (List RawFeedEvent × Nat) := do
  let (events, unknown) ← ixs.foldlM (handleOne slot) ([], 0)
  pure (sortByKey (fun ev => ev.mint) events, unknown)

/-! ## What an instruction denotes -/

/-- The event that the discriminator of an instruction names. -/
inductive Denotes (slot : UInt64) (ix : WireIx) : RawFeedEvent → Prop
  | create {c : CreateIx} (h : CreateMessage ix.program ix.accounts ix.data c) :
      Denotes slot ix (createEvent slot c)
  | trade {t : TradeIx} (h : TradeMessage ix.program ix.accounts ix.data t) :
      Denotes slot ix (tradeEvent slot t)
  | migrate {m : MigrateIx} (h : MigrateMessage ix.program ix.accounts ix.data m) :
      Denotes slot ix (migrateEvent slot m)

section Disjoint

variable {program : String} {accounts : List String} {data : List UInt8} {c : CreateIx}
  {t : TradeIx} {m : MigrateIx}

theorem CreateMessage.take (h : CreateMessage program accounts data c) :
    data.take 8 = createDiscOf c.v2 := by
  obtain ⟨tail, hdata, -⟩ := h.layout
  exact ((eq_append_iff (length_createDiscOf _)).mp hdata).1

theorem TradeMessage.take (h : TradeMessage program accounts data t) :
    data.take 8 = tradeDiscOf t.kind t.v2 := by
  obtain ⟨tail, hdata⟩ := h.layout
  exact ((eq_append_iff (length_tradeDiscOf _ _)).mp hdata).1

theorem MigrateMessage.take (h : MigrateMessage program accounts data m) :
    data.take 8 = migrateDisc := by
  obtain ⟨tail, hdata⟩ := h.layout
  exact ((eq_append_iff rfl).mp hdata).1

theorem createDiscOf_ne_trade (v2 w2 : Bool) (kind : TradeKind) :
    createDiscOf v2 ≠ tradeDiscOf kind w2 := by
  cases v2 <;> cases w2 <;> cases kind <;> decide

theorem createDiscOf_ne_migrate (v2 : Bool) : createDiscOf v2 ≠ migrateDisc := by
  cases v2 <;> decide

theorem tradeDiscOf_ne_migrate (kind : TradeKind) (v2 : Bool) :
    tradeDiscOf kind v2 ≠ migrateDisc := by
  cases kind <;> cases v2 <;> decide

theorem CreateMessage.not_trade (h : CreateMessage program accounts data c) :
    ¬ TradeMessage program accounts data t := fun ht =>
  createDiscOf_ne_trade _ _ _ (h.take.symm.trans ht.take)

theorem CreateMessage.not_migrate (h : CreateMessage program accounts data c) :
    ¬ MigrateMessage program accounts data m := fun hm =>
  createDiscOf_ne_migrate _ (h.take.symm.trans hm.take)

theorem TradeMessage.not_migrate (h : TradeMessage program accounts data t) :
    ¬ MigrateMessage program accounts data m := fun hm =>
  tradeDiscOf_ne_migrate _ _ (h.take.symm.trans hm.take)

end Disjoint

theorem eventOf_acceptsOnly (slot : UInt64) (ix : WireIx) :
    AcceptsOnly (eventOf slot ix) (Denotes slot ix) := by
  obtain ⟨created, hcreate, hcreated⟩ := parseCreate_acceptsOnly ix.program ix.accounts ix.data
  obtain ⟨traded, htrade, htraded⟩ := parseTrade_acceptsOnly ix.program ix.accounts ix.data
  obtain ⟨migrated, hmigrate, hmigrated⟩ :=
    parseMigrate_acceptsOnly ix.program ix.accounts ix.data
  unfold eventOf
  rw [hcreate, ok_bind]
  cases created with
  | some c => exact acceptsOnly_some (.create (hcreated c rfl))
  | none =>
      dsimp only
      rw [htrade, ok_bind]
      cases traded with
      | some t => exact acceptsOnly_some (.trade (htraded t rfl))
      | none =>
          dsimp only
          rw [hmigrate, ok_bind]
          cases migrated with
          | some m => exact acceptsOnly_some (.migrate (hmigrated m rfl))
          | none => exact acceptsOnly_none

/-- The decoders before the right one let its message pass. -/
theorem Denotes.eventOf {slot : UInt64} {ix : WireIx} {ev : RawFeedEvent}
    (h : Denotes slot ix ev) : eventOf slot ix = .ok (some ev) := by
  unfold HfmcBot.eventOf
  cases h with
  | create hc =>
      rw [hc.parse, ok_bind]
      rfl
  | trade ht =>
      have hcreate := (parseCreate_decides ix.program ix.accounts ix.data).eq_none
        fun c hc => hc.not_trade ht
      rw [hcreate, ok_bind]
      dsimp only
      rw [ht.parse, ok_bind]
      rfl
  | migrate hm =>
      have hcreate := (parseCreate_decides ix.program ix.accounts ix.data).eq_none
        fun c hc => hc.not_migrate hm
      have htrade := (parseTrade_decides ix.program ix.accounts ix.data).eq_none
        fun t ht => ht.not_migrate hm
      rw [hcreate, ok_bind]
      dsimp only
      rw [htrade, ok_bind]
      dsimp only
      rw [hm.parse, ok_bind]
      rfl

/-- The decoders find the event an instruction denotes, and no other. -/
theorem eventOf_decides (slot : UInt64) (ix : WireIx) :
    Decides (eventOf slot ix) (Denotes slot ix) :=
  .of_acceptsOnly (eventOf_acceptsOnly slot ix) fun _ h => h.eventOf

/-! ## A list of instructions -/

/-- The pump instructions of a list. -/
def pumpIxs (ixs : List WireIx) : List WireIx := ixs.filter fun ix => ix.program = pumpProgram

/-- One outcome for each pump instruction: the event it denotes, or none. -/
def Outcomes (slot : UInt64) (ixs : List WireIx) (outcomes : List (Option RawFeedEvent)) : Prop :=
  List.Forall₂ (fun ix o => ∀ ev, o = some ev ↔ Denotes slot ix ev) (pumpIxs ixs) outcomes

theorem exists_outcomes (slot : UInt64) (ixs : List WireIx) :
    ∃ outcomes, Outcomes slot ixs outcomes ∧ ∀ acc,
      ixs.foldlM (handleOne slot) acc =
        .ok (acc.1 ++ outcomes.filterMap id, acc.2 + outcomes.countP Option.isNone) := by
  induction ixs with
  | nil => exact ⟨[], List.Forall₂.nil, fun acc => by simp [pure, Except.pure]⟩
  | cons ix rest ih =>
      obtain ⟨outcomes, houtcomes, hrest⟩ := ih
      unfold Outcomes pumpIxs at *
      by_cases hpump : ix.program = pumpProgram
      · obtain ⟨o, hevent, ho⟩ := eventOf_decides slot ix
        refine ⟨o :: outcomes, ?_, fun acc => ?_⟩
        · rw [List.filter_cons_of_pos (by simpa using hpump)]
          exact List.Forall₂.cons ho houtcomes
        · have hone : handleOne slot acc ix =
              .ok (acc.1 ++ o.toList, acc.2 + if o.isNone then 1 else 0) := by
            unfold handleOne
            rw [if_neg (not_not.mpr hpump), hevent, ok_bind]
            cases o with
            | none => simp [pure, Except.pure]
            | some ev => simp [pure, Except.pure]
          rw [List.foldlM_cons, hone, ok_bind, hrest]
          cases o with
          | none =>
              simp
              omega
          | some ev => simp
      · refine ⟨outcomes, ?_, fun acc => ?_⟩
        · rw [List.filter_cons_of_neg (by simpa using hpump)]
          exact houtcomes
        · have hone : handleOne slot acc ix = .ok acc := if_pos hpump
          rw [List.foldlM_cons, hone, ok_bind, hrest]

/-- The events and the count of a list of instructions. -/
theorem handleInstructions_eq (slot : UInt64) (keys : List String) (ixs : List WireIx) :
    ∃ outcomes, Outcomes slot ixs outcomes ∧
      handleInstructions slot keys ixs =
        .ok (sortByKey (fun ev => ev.mint) (outcomes.filterMap id),
          outcomes.countP Option.isNone) := by
  obtain ⟨outcomes, houtcomes, hfold⟩ := exists_outcomes slot ixs
  refine ⟨outcomes, houtcomes, ?_⟩
  unfold handleInstructions
  rw [hfold, ok_bind]
  simp [pure, Except.pure]

/-- Every outcome is an event or unknown. -/
theorem length_filterMap_add_countP {α : Type} (outcomes : List (Option α)) :
    (outcomes.filterMap id).length + outcomes.countP Option.isNone = outcomes.length := by
  induction outcomes with
  | nil => rfl
  | cons o rest ih =>
      cases o with
      | none =>
          rw [List.filterMap_cons_none rfl, List.countP_cons_of_pos rfl, List.length_cons, ← ih]
          omega
      | some a =>
          have hfirst : id (some a) = some a := rfl
          rw [List.filterMap_cons_some hfirst, List.countP_cons_of_neg (by simp),
            List.length_cons, List.length_cons, ← ih]
          omega

/-! ## Behind the parsed prefix -/

/-- The same instruction, up to what follows the parsed prefix of a trade or of a
migration. -/
inductive SamePrefix : WireIx → WireIx → Prop
  | same (ix : WireIx) : SamePrefix ix ix
  | trade (program : String) (accounts : List String) (kind : TradeKind) (v2 : Bool)
      (amounts tail tail' : List UInt8) (h : amounts.length = 16) :
      SamePrefix ⟨program, accounts, tradeDiscOf kind v2 ++ (amounts ++ tail)⟩
        ⟨program, accounts, tradeDiscOf kind v2 ++ (amounts ++ tail')⟩
  | migrate (program : String) (accounts : List String) (tail tail' : List UInt8) :
      SamePrefix ⟨program, accounts, migrateDisc ++ tail⟩ ⟨program, accounts, migrateDisc ++ tail'⟩

theorem SamePrefix.symm {ix ix' : WireIx} (h : SamePrefix ix ix') : SamePrefix ix' ix := by
  cases h with
  | same => exact .same _
  | trade program accounts kind v2 amounts tail tail' hlength =>
      exact .trade program accounts kind v2 amounts tail' tail hlength
  | migrate program accounts tail tail' => exact .migrate program accounts tail' tail

theorem SamePrefix.program {ix ix' : WireIx} (h : SamePrefix ix ix') :
    ix'.program = ix.program := by
  cases h <;> rfl

/-- Such instructions denote the same. -/
theorem SamePrefix.denotes {slot : UInt64} {ix ix' : WireIx} (h : SamePrefix ix ix')
    {ev : RawFeedEvent} (hev : Denotes slot ix ev) : Denotes slot ix' ev := by
  cases h with
  | same => exact hev
  | trade program accounts kind v2 amounts tail tail' hlength =>
      have htake : (tradeDiscOf kind v2 ++ (amounts ++ tail)).take 8 = tradeDiscOf kind v2 :=
        ((eq_append_iff (length_tradeDiscOf kind v2)).mp rfl).1
      cases hev with
      | create hc => exact absurd (hc.take.symm.trans htake) (createDiscOf_ne_trade _ _ _)
      | migrate hm => exact absurd (htake.symm.trans hm.take) (tradeDiscOf_ne_migrate _ _)
      | trade ht =>
          rename_i t
          have hdisc : tradeDiscOf t.kind t.v2 = tradeDiscOf kind v2 := ht.take.symm.trans htake
          obtain ⟨hprogram, henough, hmint, hcurve, rest, hdata⟩ := ht
          dsimp only at hdata
          rw [hdisc] at hdata
          -- the amounts are the sixteen bytes behind the discriminator
          have hamounts : amounts =
              leBytes 8 t.amountBaseUnits.toNat ++ leBytes 8 t.limitQuoteUnits.toNat := by
            have hbody := List.append_cancel_left hdata
            rw [← List.append_assoc] at hbody
            exact (List.append_inj hbody (by simp [hlength])).1
          refine Denotes.trade ⟨hprogram, henough, hmint, hcurve, tail', ?_⟩
          dsimp only
          rw [hdisc, hamounts, List.append_assoc]
  | migrate program accounts tail tail' =>
      have htake : (migrateDisc ++ tail).take 8 = migrateDisc := rfl
      cases hev with
      | create hc => exact absurd (hc.take.symm.trans htake) (createDiscOf_ne_migrate _)
      | trade ht => exact absurd (ht.take.symm.trans htake) (tradeDiscOf_ne_migrate _ _)
      | migrate hm =>
          obtain ⟨hprogram, henough, hmint, hcurve, hpool, -⟩ := hm
          exact Denotes.migrate ⟨hprogram, henough, hmint, hcurve, hpool, tail', rfl⟩

theorem SamePrefix.eventOf {ix ix' : WireIx} (h : SamePrefix ix ix') (slot : UInt64) :
    eventOf slot ix' = eventOf slot ix := by
  obtain ⟨o, hevent, ho⟩ := eventOf_decides slot ix
  obtain ⟨o', hevent', ho'⟩ := eventOf_decides slot ix'
  rw [hevent, hevent']
  congr 1
  apply Option.ext
  intro ev
  rw [ho, ho']
  exact ⟨h.symm.denotes, h.denotes⟩

theorem handleInstructions_congr (slot : UInt64) (keys : List String) {ixs ixs' : List WireIx}
    (h : List.Forall₂ SamePrefix ixs ixs') :
    handleInstructions slot keys ixs' = handleInstructions slot keys ixs := by
  have hfold : ∀ acc, ixs'.foldlM (handleOne slot) acc = ixs.foldlM (handleOne slot) acc := by
    induction h with
    | nil => exact fun _ => rfl
    | cons hfirst _ ih =>
        intro acc
        have hone := hfirst.eventOf slot
        rw [List.foldlM_cons, List.foldlM_cons]
        unfold handleOne
        rw [hfirst.program, hone]
        exact bind_congr ih
  unfold handleInstructions
  rw [hfold]

/-- **Every pump instruction is accounted for exactly once**: for every slot and list of
instructions, each pump instruction gives the one event its discriminator names or counts
as unknown, the events come sorted by mint and in instruction order for each mint, and
nothing depends on what follows the parsed prefix of trades and migrations. -/
theorem handle_instructions_accounts (slot : UInt64) (keys : List String) (ixs : List WireIx) :
    (∃ events unknown outcomes,
      handleInstructions slot keys ixs = .ok (events, unknown) ∧
        Outcomes slot ixs outcomes ∧ unknown = outcomes.countP Option.isNone ∧
        events.length + unknown = (pumpIxs ixs).length ∧
        events.Perm (outcomes.filterMap id) ∧
        events.Pairwise (fun a b => a.mint ≤ b.mint) ∧
        ∀ mint, events.filter (fun ev => ev.mint = mint) =
          (outcomes.filterMap id).filter (fun ev => ev.mint = mint)) ∧
    ∀ ixs', List.Forall₂ SamePrefix ixs ixs' →
      handleInstructions slot keys ixs' = handleInstructions slot keys ixs := by
  refine ⟨?_, fun ixs' h => handleInstructions_congr slot keys h⟩
  obtain ⟨outcomes, houtcomes, heq⟩ := handleInstructions_eq slot keys ixs
  refine ⟨_, _, outcomes, heq, houtcomes, rfl, ?_, sortByKey_perm _ _, sortByKey_sorted _ _,
    sortByKey_filter _ _⟩
  rw [length_sortByKey, length_filterMap_add_countP]
  exact houtcomes.length_eq.symm

end HfmcBot
