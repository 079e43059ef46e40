import HfmcBot.Foundation.Cursor

/-!
# On-chain decoders

The instruction decoders of `decode.rs`.  Each checks the program, the discriminator and
the lengths, and then reads the prefix it understands; what follows the prefix is left
alone.  Indexing that may panic is written as such, so that a decoder which reads past
the end of its input would show.

* `parseCreate`, `parseTrade`, `parseMigrate`: the decoders;
* `CreateMessage`, `TradeMessage`, `MigrateMessage`: the messages they accept;
* `readCreateArgs_reads`, `readTradeArgs_reads`: what the readers take;
* `parseCreate_acceptsOnly`, `CreateMessage.parse`, and the same for trades and
  migrations: the two halves of what a decoder accepts;
* `parseCreate_decides`, `parseTrade_decides`, `parseMigrate_decides`: both halves, on all
  bytes;
* `parse_create_grammar`: creations, with the round trip.
-/

namespace HfmcBot

open Foundation

/-- Pump.fun bonding-curve program. -/
def pumpProgram : String := "6EF8rrecthR5Dkzon8Nwu78hRvfCKubJ14M5uBEwF6P"

/-! ## Discriminators -/

def createDisc : List UInt8 := [24, 30, 200, 40, 5, 28, 7, 119]

def createV2Disc : List UInt8 := [214, 144, 76, 236, 95, 139, 49, 180]

def buyDisc : List UInt8 := [102, 6, 61, 18, 1, 218, 235, 234]

def sellDisc : List UInt8 := [51, 230, 133, 164, 1, 127, 131, 173]

def buyV2Disc : List UInt8 := [184, 23, 238, 97, 103, 197, 211, 61]

def sellV2Disc : List UInt8 := [93, 246, 130, 60, 231, 233, 64, 178]

def migrateDisc : List UInt8 := [155, 234, 231, 146, 236, 158, 162, 30]

/-! ## Borsh primitives -/

/-- The 32 bytes of a key. -/
abbrev PubkeyBytes := { bytes : List UInt8 // bytes.length = 32 }

def readU64 (data : List UInt8) : StateT Nat Option UInt64 := do
  let bytes ← readBytes data 8
  pure (UInt64.ofNat (leNat bytes))

/-- A text behind its length in four bytes. -/
def readBorshStr (data : List UInt8) : StateT Nat Option String := do
  let len ← readBytes data 4
  let text ← readBytes data (leNat len)
  ofOption (fromUtf8 text)

/-- The conversion of a stretch of bytes into a key checks its length. -/
def toPubkey (bytes : List UInt8) : Option PubkeyBytes :=
  if h : bytes.length = 32 then some ⟨bytes, h⟩ else none

def readPubkey (data : List UInt8) : StateT Nat Option PubkeyBytes := do
  let bytes ← readBytes data 32
  ofOption (toPubkey bytes)

/-! ## create / create_v2 -/

/-- A decoded token-creation instruction. -/
structure CreateIx where
  v2 : Bool
  mint : String
  bondingCurve : String
  creator : PubkeyBytes
  name : String
  symbol : String
  uri : String
  mayhem : Bool
  deriving DecidableEq

/-- The leading arguments of a creation. -/
structure CreateArgs where
  name : String
  symbol : String
  uri : String
  creator : PubkeyBytes

def readCreateArgs (data : List UInt8) : StateT Nat Option CreateArgs := do
  let name ← readBorshStr data
  let symbol ← readBorshStr data
  let uri ← readBorshStr data
  let creator ← readPubkey data
  pure ⟨name, symbol, uri, creator⟩

/-- `v2` as the discriminator tells it. -/
def createVersion (disc : List UInt8) : Option Bool :=
  if disc = createDisc then some false
  else if disc = createV2Disc then some true
  else none

/-- `data.get(off).is_some_and(|b| *b != 0)`. -/
def flagAt (data : List UInt8) (off : Nat) : Bool := data[off]?.any fun b => b != 0

/-- Decode a `create` or `create_v2` instruction. -/
def parseCreate (program : String) (accounts : List String) (data : List UInt8) :
    Except Panic (Option CreateIx) :=
  if program ≠ pumpProgram ∨ data.length < 8 ∨ accounts.length < 3 then .ok none
  else do
    let disc ← sliceTo data 8
    match createVersion disc with
    | none => pure none
    | some v2 =>
        match (readCreateArgs data).run 8 with
        | none => pure none
        | some (args, off) =>
            let mint ← index accounts 0
            let bondingCurve ← index accounts 2
            pure (some {
              v2 := v2
              mint := mint
              bondingCurve := bondingCurve
              creator := args.creator
              name := args.name
              symbol := args.symbol
              uri := args.uri
              mayhem := v2 && flagAt data off })

/-! ## buy / sell / buy_v2 / sell_v2 -/

inductive TradeKind
  | buy
  | sell
  deriving DecidableEq

/-- A decoded bonding-curve trade. -/
structure TradeIx where
  kind : TradeKind
  v2 : Bool
  mint : String
  bondingCurve : String
  amountBaseUnits : UInt64
  limitQuoteUnits : UInt64
  deriving DecidableEq

def tradeVersion (disc : List UInt8) : Option (TradeKind × Bool) :=
  if disc = buyDisc then some (.buy, false)
  else if disc = sellDisc then some (.sell, false)
  else if disc = buyV2Disc then some (.buy, true)
  else if disc = sellV2Disc then some (.sell, true)
  else none

/-- Where a trade names its mint and its curve, and how many accounts it needs. -/
def tradeAccounts (v2 : Bool) : Nat × Nat × Nat :=
  match v2 with
  | false => (2, 3, 4)
  | true => (1, 10, 11)

def readTradeArgs (data : List UInt8) : StateT Nat Option (UInt64 × UInt64) := do
  let amountBaseUnits ← readU64 data
  let limitQuoteUnits ← readU64 data
  pure (amountBaseUnits, limitQuoteUnits)

/-- Decode a curve trade. -/
def parseTrade (program : String) (accounts : List String) (data : List UInt8) :
    Except Panic (Option TradeIx) :=
  if program ≠ pumpProgram ∨ data.length < 24 then .ok none
  else do
    let disc ← sliceTo data 8
    match tradeVersion disc with
    | none => pure none
    | some (kind, v2) =>
        let (mintIdx, curveIdx, minAccts) := tradeAccounts v2
        if accounts.length < minAccts then pure none
        else
          match (readTradeArgs data).run 8 with
          | none => pure none
          | some ((amountBaseUnits, limitQuoteUnits), _) =>
              let mint ← index accounts mintIdx
              let bondingCurve ← index accounts curveIdx
              pure (some {
                kind := kind
                v2 := v2
                mint := mint
                bondingCurve := bondingCurve
                amountBaseUnits := amountBaseUnits
                limitQuoteUnits := limitQuoteUnits })

/-! ## migrate -/

/-- A decoded `migrate` instruction: the curve graduated to a pool. -/
structure MigrateIx where
  mint : String
  bondingCurve : String
  pool : String
  deriving DecidableEq

def parseMigrate (program : String) (accounts : List String) (data : List UInt8) :
    Except Panic (Option MigrateIx) :=
  if program ≠ pumpProgram ∨ data.length < 8 ∨ accounts.length < 10 then .ok none
  else do
    let disc ← sliceTo data 8
    if disc ≠ migrateDisc then pure none
    else
      let mint ← index accounts 2
      let bondingCurve ← index accounts 3
      let pool ← index accounts 9
      pure (some { mint := mint, bondingCurve := bondingCurve, pool := pool })

/-! ## What the readers take -/

/-- A text with its length in front. -/
def borshStr (s : String) : List UInt8 := leBytes 4 (utf8Bytes s).length ++ utf8Bytes s

/-- Its length can be told in four bytes. -/
def Fits (s : String) : Prop := (utf8Bytes s).length < 2 ^ 32

instance (s : String) : Decidable (Fits s) := by
  unfold Fits
  infer_instance

theorem readU64_reads (data : List UInt8) :
    Reads data (readU64 data) fun v bs => bs = leBytes 8 v.toNat := by
  refine ((readBytes_reads data 8).bind fun bytes =>
    Reads.pure data (UInt64.ofNat (leNat bytes))).congr ?_
  intro v bs
  constructor
  · rintro ⟨bytes, xs, ys, rfl, ⟨rfl, hlength⟩, rfl, rfl⟩
    have hlt := leNat_lt xs
    rw [hlength] at hlt
    rw [UInt64.toNat_ofNat', Nat.mod_eq_of_lt (by omega), List.append_nil, ← hlength,
      leBytes_leNat]
  · rintro rfl
    have hlt : v.toNat < 256 ^ 8 := v.toNat_lt
    refine ⟨_, _, [], (List.append_nil _).symm, ⟨rfl, length_leBytes _ _⟩, ?_, rfl⟩
    rw [leNat_leBytes hlt, UInt64.ofNat_toNat]

theorem readBorshStr_reads (data : List UInt8) :
    Reads data (readBorshStr data) fun s bs => bs = borshStr s ∧ Fits s := by
  refine ((readBytes_reads data 4).bind fun len =>
    (readBytes_reads data (leNat len)).bind fun text =>
      Reads.ofOption data (fromUtf8 text)).congr ?_
  intro s bs
  constructor
  · rintro ⟨len, xs, _, rfl, ⟨rfl, hlen⟩, text, ys, _, rfl, ⟨rfl, htext⟩, hutf8, rfl⟩
    obtain rfl := fromUtf8_eq_some_iff.mp hutf8
    obtain ⟨hlt, hxs⟩ := (leNat_eq_iff hlen).mp htext.symm
    rw [List.append_nil, borshStr, ← hxs]
    exact ⟨rfl, hlt⟩
  · rintro ⟨rfl, hfits⟩
    have hlt : (utf8Bytes s).length < 256 ^ 4 := hfits
    refine ⟨_, leBytes 4 (utf8Bytes s).length, _, rfl, ⟨rfl, length_leBytes _ _⟩, utf8Bytes s,
      utf8Bytes s, [], (List.append_nil _).symm, ⟨rfl, (leNat_leBytes hlt).symm⟩, ?_, rfl⟩
    exact fromUtf8_eq_some_iff.mpr rfl

theorem toPubkey_eq_some_iff {bytes : List UInt8} {key : PubkeyBytes} :
    toPubkey bytes = some key ↔ bytes = key.val := by
  unfold toPubkey
  constructor
  · intro h
    split at h
    · rw [← Option.some.inj h]
    · exact absurd h (by simp)
  · rintro rfl
    rw [dif_pos key.property]

theorem readPubkey_reads (data : List UInt8) :
    Reads data (readPubkey data) fun key bs => bs = key.val := by
  refine ((readBytes_reads data 32).bind fun bytes =>
    Reads.ofOption data (toPubkey bytes)).congr ?_
  intro key bs
  constructor
  · rintro ⟨bytes, xs, _, rfl, ⟨rfl, -⟩, hkey, rfl⟩
    rw [List.append_nil]
    exact toPubkey_eq_some_iff.mp hkey
  · rintro rfl
    exact ⟨_, _, [], (List.append_nil _).symm, ⟨rfl, key.property⟩,
      toPubkey_eq_some_iff.mpr rfl, rfl⟩

/-- The bytes of the arguments of a creation. -/
def CreateArgs.bytes (args : CreateArgs) : List UInt8 :=
  borshStr args.name ++ (borshStr args.symbol ++ (borshStr args.uri ++ args.creator.val))

theorem readCreateArgs_reads (data : List UInt8) :
    Reads data (readCreateArgs data) fun args bs =>
      bs = args.bytes ∧ Fits args.name ∧ Fits args.symbol ∧ Fits args.uri := by
  refine ((readBorshStr_reads data).bind fun name => (readBorshStr_reads data).bind fun symbol =>
    (readBorshStr_reads data).bind fun uri => (readPubkey_reads data).bind fun creator =>
      Reads.pure data (CreateArgs.mk name symbol uri creator)).congr ?_
  intro args bs
  constructor
  · rintro ⟨name, _, _, rfl, ⟨rfl, hname⟩, symbol, _, _, rfl, ⟨rfl, hsymbol⟩, uri, _, _, rfl,
      ⟨rfl, huri⟩, creator, _, _, rfl, rfl, rfl, rfl⟩
    rw [List.append_nil]
    exact ⟨rfl, hname, hsymbol, huri⟩
  · rintro ⟨rfl, hname, hsymbol, huri⟩
    refine ⟨args.name, _, _, rfl, ⟨rfl, hname⟩, args.symbol, _, _, rfl, ⟨rfl, hsymbol⟩, args.uri,
      _, _, rfl, ⟨rfl, huri⟩, args.creator, _, [], ?_, rfl, rfl, rfl⟩
    rw [List.append_nil]

theorem readTradeArgs_reads (data : List UInt8) :
    Reads data (readTradeArgs data) fun args bs =>
      bs = leBytes 8 args.1.toNat ++ leBytes 8 args.2.toNat := by
  refine ((readU64_reads data).bind fun amount => (readU64_reads data).bind fun limit =>
    Reads.pure data (amount, limit)).congr ?_
  intro args bs
  constructor
  · rintro ⟨amount, _, _, rfl, rfl, limit, _, _, rfl, rfl, rfl, rfl⟩
    rw [List.append_nil]
  · rintro rfl
    refine ⟨args.1, _, _, rfl, rfl, args.2, _, [], ?_, rfl, rfl, rfl⟩
    rw [List.append_nil]

/-! ## The messages -/

/-- The discriminator of a creation. -/
def createDiscOf : Bool → List UInt8
  | false => createDisc
  | true => createV2Disc

theorem length_createDiscOf (v2 : Bool) : (createDiscOf v2).length = 8 := by
  cases v2 <;> rfl

theorem createVersion_eq_some_iff {disc : List UInt8} {v2 : Bool} :
    createVersion disc = some v2 ↔ disc = createDiscOf v2 := by
  unfold createVersion
  constructor
  · intro h
    split_ifs at h with hfirst hsecond
    · rw [← Option.some.inj h]
      exact hfirst
    · rw [← Option.some.inj h]
      exact hsecond
  · rintro rfl
    cases v2 <;> rfl

/-- The discriminator of a trade. -/
def tradeDiscOf : TradeKind → Bool → List UInt8
  | .buy, false => buyDisc
  | .sell, false => sellDisc
  | .buy, true => buyV2Disc
  | .sell, true => sellV2Disc

theorem length_tradeDiscOf (kind : TradeKind) (v2 : Bool) : (tradeDiscOf kind v2).length = 8 := by
  cases kind <;> cases v2 <;> rfl

theorem tradeVersion_eq_some_iff {disc : List UInt8} {kind : TradeKind} {v2 : Bool} :
    tradeVersion disc = some (kind, v2) ↔ disc = tradeDiscOf kind v2 := by
  unfold tradeVersion
  constructor
  · intro h
    split_ifs at h with h1 h2 h3 h4
    all_goals
      obtain ⟨rfl, rfl⟩ := Prod.mk.inj (Option.some.inj h)
      assumption
  · rintro rfl
    cases kind <;> cases v2 <;> rfl

/-- The first byte of what follows is there and set. -/
def flagSet : List UInt8 → Bool
  | [] => false
  | b :: _ => b != 0

theorem flagAt_eq (data : List UInt8) (off : Nat) : flagAt data off = flagSet (data.drop off) := by
  unfold flagAt
  rw [← List.head?_drop]
  cases data.drop off with
  | nil => rfl
  | cons b rest => rfl

/-- A creation as the program takes it. -/
structure CreateMessage (program : String) (accounts : List String) (data : List UInt8)
    (c : CreateIx) : Prop where
  addressed : program = pumpProgram
  enough : 3 ≤ accounts.length
  mint : accounts[0]? = some c.mint
  curve : accounts[2]? = some c.bondingCurve
  fits : Fits c.name ∧ Fits c.symbol ∧ Fits c.uri
  layout : ∃ tail, data = createDiscOf c.v2 ++ (borshStr c.name ++ (borshStr c.symbol ++
      (borshStr c.uri ++ (c.creator.val ++ tail)))) ∧
    c.mayhem = (c.v2 && flagSet tail)

/-- A trade as the program takes it. -/
structure TradeMessage (program : String) (accounts : List String) (data : List UInt8)
    (t : TradeIx) : Prop where
  addressed : program = pumpProgram
  enough : (tradeAccounts t.v2).2.2 ≤ accounts.length
  mint : accounts[(tradeAccounts t.v2).1]? = some t.mint
  curve : accounts[(tradeAccounts t.v2).2.1]? = some t.bondingCurve
  layout : ∃ tail, data = tradeDiscOf t.kind t.v2 ++ (leBytes 8 t.amountBaseUnits.toNat ++
    (leBytes 8 t.limitQuoteUnits.toNat ++ tail))

/-- A migration as the program takes it. -/
structure MigrateMessage (program : String) (accounts : List String) (data : List UInt8)
    (m : MigrateIx) : Prop where
  addressed : program = pumpProgram
  enough : 10 ≤ accounts.length
  mint : accounts[2]? = some m.mint
  curve : accounts[3]? = some m.bondingCurve
  pool : accounts[9]? = some m.pool
  layout : ∃ tail, data = migrateDisc ++ tail

/-! ## What the decoders accept -/

section Accept

variable (program : String) (accounts : List String) (data : List UInt8)

/-- The arguments of a creation behind its discriminator. -/
theorem readCreateArgs_run {data : List UInt8} (h : 8 ≤ data.length) (args : CreateArgs)
    (off : Nat) :
    (readCreateArgs data).run 8 = some (args, off) ↔
      ∃ tail, data.drop 8 = args.bytes ++ tail ∧ (Fits args.name ∧ Fits args.symbol ∧
        Fits args.uri) ∧ off = 8 + args.bytes.length := by
  rw [(readCreateArgs_reads data).split h]
  constructor
  · rintro ⟨_, tail, ⟨rfl, hfits⟩, hdrop, hoff⟩
    exact ⟨tail, hdrop, hfits, hoff⟩
  · rintro ⟨tail, hdrop, hfits, hoff⟩
    exact ⟨_, tail, ⟨rfl, hfits⟩, hdrop, hoff⟩

theorem parseCreate_acceptsOnly :
    AcceptsOnly (parseCreate program accounts data) (CreateMessage program accounts data) := by
  unfold parseCreate
  split
  · exact acceptsOnly_none
  · rename_i hgood
    rw [not_or, not_or, not_lt, not_lt, not_not] at hgood
    obtain ⟨rfl, hlength, haccounts⟩ := hgood
    rw [sliceTo_of_le hlength, ok_bind]
    cases hversion : createVersion (data.take 8) with
    | none => exact acceptsOnly_none
    | some v2 =>
        dsimp only
        cases hread : (readCreateArgs data).run 8 with
        | none => exact acceptsOnly_none
        | some result =>
            obtain ⟨args, off⟩ := result
            obtain ⟨tail, hdrop, hfits, rfl⟩ := (readCreateArgs_run hlength _ _).mp hread
            dsimp only
            rw [index_of_lt (by omega : 0 < accounts.length), ok_bind,
              index_of_lt (by omega : 2 < accounts.length), ok_bind]
            apply acceptsOnly_some
            refine ⟨rfl, haccounts, List.getElem?_eq_getElem _, List.getElem?_eq_getElem _, hfits,
              tail, ?_, ?_⟩
            · rw [eq_append_iff (length_createDiscOf v2), hdrop]
              refine ⟨createVersion_eq_some_iff.mp hversion, ?_⟩
              simp only [CreateArgs.bytes, List.append_assoc]
            · rw [flagAt_eq, ← List.drop_drop, hdrop, List.drop_left]

variable {program accounts data} in
theorem CreateMessage.parse {c : CreateIx} (h : CreateMessage program accounts data c) :
    parseCreate program accounts data = .ok (some c) := by
  obtain ⟨rfl, haccounts, hmint, hcurve, hfits, tail, hdata, hmayhem⟩ := h
  obtain ⟨htake, hrest⟩ := (eq_append_iff (length_createDiscOf c.v2)).mp hdata
  have hlength : 8 ≤ data.length := by
    rw [hdata, List.length_append, length_createDiscOf]
    omega
  have hdrop : data.drop 8 = (CreateArgs.mk c.name c.symbol c.uri c.creator).bytes ++ tail := by
    rw [hrest]
    simp only [CreateArgs.bytes, List.append_assoc]
  have hread := (readCreateArgs_run hlength _ _).mpr ⟨tail, hdrop, hfits, rfl⟩
  have hgood : ¬ (pumpProgram ≠ pumpProgram ∨ data.length < 8 ∨ accounts.length < 3) := by
    rw [not_or, not_or, not_not]
    exact ⟨rfl, by omega, by omega⟩
  unfold parseCreate
  rw [if_neg hgood, sliceTo_of_le hlength, ok_bind, htake, createVersion_eq_some_iff.mpr rfl]
  dsimp only
  rw [hread]
  dsimp only
  rw [index_of_some hmint, ok_bind, index_of_some hcurve, ok_bind, flagAt_eq, ← List.drop_drop,
    hdrop, List.drop_left, ← hmayhem]
  rfl

theorem parseCreate_decides :
    Decides (parseCreate program accounts data) (CreateMessage program accounts data) :=
  .of_acceptsOnly (parseCreate_acceptsOnly program accounts data) fun _ h => h.parse

/-- The amounts of a trade behind its discriminator. -/
theorem readTradeArgs_run {data : List UInt8} (h : 8 ≤ data.length) (args : UInt64 × UInt64)
    (off : Nat) :
    (readTradeArgs data).run 8 = some (args, off) ↔
      ∃ tail, data.drop 8 = leBytes 8 args.1.toNat ++ (leBytes 8 args.2.toNat ++ tail) ∧
        off = 24 := by
  rw [(readTradeArgs_reads data).split h]
  constructor
  · rintro ⟨_, tail, rfl, hdrop, rfl⟩
    refine ⟨tail, by rw [hdrop, List.append_assoc], ?_⟩
    simp
  · rintro ⟨tail, hdrop, rfl⟩
    refine ⟨_, tail, rfl, by rw [hdrop, List.append_assoc], ?_⟩
    simp

theorem parseTrade_acceptsOnly :
    AcceptsOnly (parseTrade program accounts data) (TradeMessage program accounts data) := by
  unfold parseTrade
  split
  · exact acceptsOnly_none
  · rename_i hgood
    rw [not_or, not_lt, not_not] at hgood
    obtain ⟨rfl, hlength⟩ := hgood
    have hhead : 8 ≤ data.length := by omega
    rw [sliceTo_of_le hhead, ok_bind]
    cases hversion : tradeVersion (data.take 8) with
    | none => exact acceptsOnly_none
    | some version =>
        obtain ⟨kind, v2⟩ := version
        dsimp only
        split
        · exact acceptsOnly_none
        · rename_i hmany
          cases hread : (readTradeArgs data).run 8 with
          | none => exact acceptsOnly_none
          | some result =>
              obtain ⟨⟨amount, limit⟩, off⟩ := result
              obtain ⟨tail, hdrop, -⟩ := (readTradeArgs_run hhead _ _).mp hread
              have hmint : (tradeAccounts v2).1 < accounts.length := by
                cases v2 <;> simp only [tradeAccounts] at hmany ⊢ <;> omega
              have hcurve : (tradeAccounts v2).2.1 < accounts.length := by
                cases v2 <;> simp only [tradeAccounts] at hmany ⊢ <;> omega
              dsimp only
              rw [index_of_lt hmint, ok_bind, index_of_lt hcurve, ok_bind]
              apply acceptsOnly_some
              refine ⟨rfl, not_lt.mp hmany, List.getElem?_eq_getElem _,
                List.getElem?_eq_getElem _, tail, ?_⟩
              rw [eq_append_iff (length_tradeDiscOf kind v2)]
              exact ⟨tradeVersion_eq_some_iff.mp hversion, hdrop⟩

variable {program accounts data} in
theorem TradeMessage.parse {t : TradeIx} (h : TradeMessage program accounts data t) :
    parseTrade program accounts data = .ok (some t) := by
  obtain ⟨rfl, haccounts, hmint, hcurve, tail, hdata⟩ := h
  obtain ⟨htake, hdrop⟩ := (eq_append_iff (length_tradeDiscOf t.kind t.v2)).mp hdata
  have hlength : 24 ≤ data.length := by
    rw [hdata]
    simp only [List.length_append, length_tradeDiscOf, length_leBytes]
    omega
  have hhead : 8 ≤ data.length := by omega
  have hread := (readTradeArgs_run hhead (t.amountBaseUnits, t.limitQuoteUnits) 24).mpr
    ⟨tail, hdrop, rfl⟩
  have hgood : ¬ (pumpProgram ≠ pumpProgram ∨ data.length < 24) := by
    rw [not_or, not_not]
    exact ⟨rfl, by omega⟩
  unfold parseTrade
  rw [if_neg hgood, sliceTo_of_le hhead, ok_bind, htake, tradeVersion_eq_some_iff.mpr rfl]
  dsimp only
  rw [if_neg (not_lt.mpr haccounts), hread]
  dsimp only
  rw [index_of_some hmint, ok_bind, index_of_some hcurve, ok_bind]
  rfl

theorem parseTrade_decides :
    Decides (parseTrade program accounts data) (TradeMessage program accounts data) :=
  .of_acceptsOnly (parseTrade_acceptsOnly program accounts data) fun _ h => h.parse

theorem parseMigrate_acceptsOnly :
    AcceptsOnly (parseMigrate program accounts data) (MigrateMessage program accounts data) := by
  unfold parseMigrate
  split
  · exact acceptsOnly_none
  · rename_i hgood
    rw [not_or, not_or, not_lt, not_lt, not_not] at hgood
    obtain ⟨rfl, hlength, haccounts⟩ := hgood
    rw [sliceTo_of_le hlength, ok_bind]
    split
    · exact acceptsOnly_none
    · rename_i hdisc
      rw [index_of_lt (by omega : 2 < accounts.length), ok_bind,
        index_of_lt (by omega : 3 < accounts.length), ok_bind,
        index_of_lt (by omega : 9 < accounts.length), ok_bind]
      apply acceptsOnly_some
      refine ⟨rfl, haccounts, List.getElem?_eq_getElem _, List.getElem?_eq_getElem _,
        List.getElem?_eq_getElem _, data.drop 8, ?_⟩
      rw [eq_append_iff rfl]
      exact ⟨not_not.mp hdisc, rfl⟩

variable {program accounts data} in
theorem MigrateMessage.parse {m : MigrateIx} (h : MigrateMessage program accounts data m) :
    parseMigrate program accounts data = .ok (some m) := by
  obtain ⟨rfl, haccounts, hmint, hcurve, hpool, tail, hdata⟩ := h
  have htake : data.take 8 = migrateDisc := ((eq_append_iff rfl).mp hdata).1
  have hlength : 8 ≤ data.length := by
    rw [hdata, List.length_append]
    exact Nat.le_add_right 8 _
  have hgood : ¬ (pumpProgram ≠ pumpProgram ∨ data.length < 8 ∨ accounts.length < 10) := by
    rw [not_or, not_or, not_not]
    exact ⟨rfl, by omega, by omega⟩
  unfold parseMigrate
  rw [if_neg hgood, sliceTo_of_le hlength, ok_bind, htake, if_neg (not_not.mpr rfl),
    index_of_some hmint, ok_bind, index_of_some hcurve, ok_bind, index_of_some hpool, ok_bind]
  rfl

theorem parseMigrate_decides :
    Decides (parseMigrate program accounts data) (MigrateMessage program accounts data) :=
  .of_acceptsOnly (parseMigrate_acceptsOnly program accounts data) fun _ h => h.parse

end Accept

/-- The bytes of a creation. -/
def encodeCreate (v2 : Bool) (args : CreateArgs) (tail : List UInt8) : List UInt8 :=
  createDiscOf v2 ++ (args.bytes ++ tail)

/-- **The grammar of creations**: whatever the program, the accounts and the bytes are,
the decoder reads nothing past the end and accepts exactly the messages of the grammar;
so it undoes the encoding of all texts whose lengths can be told, under any tail. -/
theorem parse_create_grammar :
    (∀ program accounts data,
      Decides (parseCreate program accounts data) (CreateMessage program accounts data)) ∧
    ∀ (accounts : List String) (v2 : Bool) (args : CreateArgs) (tail : List UInt8)
      (mint curve : String), accounts[0]? = some mint → accounts[2]? = some curve →
      Fits args.name → Fits args.symbol → Fits args.uri →
        parseCreate pumpProgram accounts (encodeCreate v2 args tail) =
          .ok (some {
            v2 := v2
            mint := mint
            bondingCurve := curve
            creator := args.creator
            name := args.name
            symbol := args.symbol
            uri := args.uri
            mayhem := v2 && flagSet tail }) := by
  refine ⟨parseCreate_decides, ?_⟩
  intro accounts v2 args tail mint curve hmint hcurve hname hsymbol huri
  have hthree : 2 < accounts.length := by
    obtain ⟨hlt, -⟩ := List.getElem?_eq_some_iff.mp hcurve
    exact hlt
  apply (parseCreate_decides _ _ _).eq_some
  refine ⟨rfl, hthree, hmint, hcurve, ⟨hname, hsymbol, huri⟩, tail, ?_, rfl⟩
  simp only [encodeCreate, CreateArgs.bytes, List.append_assoc]

/-- A key of sevens. -/
def sevens : PubkeyBytes := ⟨List.replicate 32 7, by decide⟩

/-- The creation of the round-trip test. -/
theorem parse_create_grammar_test :
    parseCreate pumpProgram ["acct0", "acct1", "acct2"]
        (encodeCreate true ⟨"Test Token", "TEST", "https://example.com/meta.json", sevens⟩ [1]) =
      .ok (some {
        v2 := true
        mint := "acct0"
        bondingCurve := "acct2"
        creator := sevens
        name := "Test Token"
        symbol := "TEST"
        uri := "https://example.com/meta.json"
        mayhem := true }) :=
  parse_create_grammar.2 ["acct0", "acct1", "acct2"] true
    ⟨"Test Token", "TEST", "https://example.com/meta.json", sevens⟩ [1] "acct0" "acct2" rfl rfl
    (by decide +kernel) (by decide +kernel) (by decide +kernel)

end HfmcBot
