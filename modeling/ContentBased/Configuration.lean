import ContentBased.UserInterests

namespace ContentBased

/-- What the lookups in a file that was parsed find: a value of the type that is asked for, or nothing. -/
structure Config where
  lookupInt : String → Option Int32
  lookupFloat : String → Option ℚ
  lookupString : String → Option String

inductive ConfigException where
  | fileIOException (what : String)
  | parseException (error : String) (line : Int)

/-- The reading of configuration files by the libraries: a file as `Config`, and the options of the base class, of which
only the path is used here. -/
structure ConfigReader where
  readFile : String → Except ConfigException Config
  fromConf : String → String → Status × String

namespace ModelOptions

/-- The lookups of `fromConf`, each with what is assigned when nothing is found. -/
def lookups (parser : Config) (opts : ModelOptions) : ModelOptions :=
  let opts := { opts with rpcPort := (parser.lookupInt "rpc_port").getD 6100 }
  let opts := { opts with monitorPort := (parser.lookupInt "monitor_port").getD 16100 }
  let opts := { opts with marshalerR1 := (parser.lookupFloat "marshaler_r1").getD (2 / 5) }
  let opts := match parser.lookupFloat "marshaler_r2" with
    | some marshalerR2 => { opts with marshalerR2 }
    | none => { opts with marshalerR1 := 3 / 5 }
  let opts := { opts with marshalerTopt := (parser.lookupInt "marshaler_topt").getD 3 }
  let opts := { opts with marshalerP := (parser.lookupInt "marshaler_p").getD 4 }
  let opts := { opts with marshalerN := (parser.lookupInt "marshaler_n").getD 3 }
  let opts := { opts with flushTimer := (parser.lookupString "flush_timer").getD "23/day" }
  let opts := { opts with trainTimer := (parser.lookupString "train_timer").getD "50/hour" }
  let opts := { opts with rolloverTimer := (parser.lookupString "rollover_timer").getD "30/hour" }
  let opts := { opts with reloadTimer := (parser.lookupString "reload_timer").getD "23/day" }
  let opts := { opts with categoryTableName := (parser.lookupString "category_table_name").getD "category.dat" }
  let opts := { opts with newsTrendsTableName := (parser.lookupString "news_trends_table_name").getD "news-trends.dat" }
  let opts := { opts with newsTrendsLogPrefix := (parser.lookupString "news_trends_log_prefix").getD "news-trends" }
  let opts := { opts with newsTrendsTimeWindow := ((parser.lookupInt "news_trends_time_window").getD 48).toInt }
  let opts := { opts with
    userInterestsPriorProbType := ((parser.lookupInt "user_interests_prior_prob_type").getD 0).toInt }
  let opts := { opts with userInterestsVisualClicks := (parser.lookupFloat "user_interests_visual_clicks").getD 10 }
  let opts := { opts with
    userInterestsTableName := (parser.lookupString "user_interests_table_name").getD "user-interests.dat" }
  let opts := { opts with userInterestsLogPrefix := (parser.lookupString "user_interests_log_prefix").getD "user-interests" }
  let opts := match parser.lookupInt "user_interests_time_window" with
    | some window => { opts with userInterestsTimeWindow := window.toInt }
    -- a number assigned to a string is a string of that character
    | none => { opts with userInterestsLogPrefix := String.singleton (Char.ofNat 24) }
  { opts with userInterestsMixAlpha := (parser.lookupFloat "user_interests_mix_alpha").getD (7 / 10) }

def fromConf (reader : ConfigReader) (conf : String) (opts : ModelOptions) : Status × ModelOptions :=
  match reader.fromConf conf opts.workPath with
  | (.error failure, workPath) => (.error failure, { opts with workPath })
  | (.ok (), workPath) =>
    match reader.readFile conf with
    | .error (.fileIOException what) => (.error ⟨.ioError, what ++ ", file=" ++ conf⟩, { opts with workPath })
    | .error (.parseException error line) =>
      (.error ⟨.corruption, error ++ ", at " ++ conf ++ ":" ++ toString line⟩, { opts with workPath })
    | .ok parser => (.ok (), lookups parser { opts with workPath })

end ModelOptions

/-- The keys that `fromConf` looks up. -/
inductive OptionKey where
  | rpcPort
  | monitorPort
  | marshalerR1
  | marshalerR2
  | marshalerTopt
  | marshalerP
  | marshalerN
  | flushTimer
  | trainTimer
  | rolloverTimer
  | reloadTimer
  | categoryTableName
  | newsTrendsTableName
  | newsTrendsLogPrefix
  | newsTrendsTimeWindow
  | userInterestsPriorProbType
  | userInterestsVisualClicks
  | userInterestsTableName
  | userInterestsLogPrefix
  | userInterestsTimeWindow
  | userInterestsMixAlpha
deriving DecidableEq, Repr

inductive OptionValue where
  | int (value : Int)
  | float (value : ℚ)
  | string (value : String)
deriving DecidableEq, Repr

namespace OptionKey

/-- The value that the file gives a key, of the type of its option. -/
def lookup (parser : Config) : OptionKey → Option OptionValue
  | rpcPort => (parser.lookupInt "rpc_port").map fun value => .int value.toInt
  | monitorPort => (parser.lookupInt "monitor_port").map fun value => .int value.toInt
  | marshalerR1 => (parser.lookupFloat "marshaler_r1").map .float
  | marshalerR2 => (parser.lookupFloat "marshaler_r2").map .float
  | marshalerTopt => (parser.lookupInt "marshaler_topt").map fun value => .int value.toInt
  | marshalerP => (parser.lookupInt "marshaler_p").map fun value => .int value.toInt
  | marshalerN => (parser.lookupInt "marshaler_n").map fun value => .int value.toInt
  | flushTimer => (parser.lookupString "flush_timer").map .string
  | trainTimer => (parser.lookupString "train_timer").map .string
  | rolloverTimer => (parser.lookupString "rollover_timer").map .string
  | reloadTimer => (parser.lookupString "reload_timer").map .string
  | categoryTableName => (parser.lookupString "category_table_name").map .string
  | newsTrendsTableName => (parser.lookupString "news_trends_table_name").map .string
  | newsTrendsLogPrefix => (parser.lookupString "news_trends_log_prefix").map .string
  | newsTrendsTimeWindow => (parser.lookupInt "news_trends_time_window").map fun value => .int value.toInt
  | userInterestsPriorProbType => (parser.lookupInt "user_interests_prior_prob_type").map fun value => .int value.toInt
  | userInterestsVisualClicks => (parser.lookupFloat "user_interests_visual_clicks").map .float
  | userInterestsTableName => (parser.lookupString "user_interests_table_name").map .string
  | userInterestsLogPrefix => (parser.lookupString "user_interests_log_prefix").map .string
  | userInterestsTimeWindow => (parser.lookupInt "user_interests_time_window").map fun value => .int value.toInt
  | userInterestsMixAlpha => (parser.lookupFloat "user_interests_mix_alpha").map .float

/-- The option that is named like the key. -/
def option (opts : ModelOptions) : OptionKey → OptionValue
  | rpcPort => .int opts.rpcPort.toInt
  | monitorPort => .int opts.monitorPort.toInt
  | marshalerR1 => .float opts.marshalerR1
  | marshalerR2 => .float opts.marshalerR2
  | marshalerTopt => .int opts.marshalerTopt.toInt
  | marshalerP => .int opts.marshalerP.toInt
  | marshalerN => .int opts.marshalerN.toInt
  | flushTimer => .string opts.flushTimer
  | trainTimer => .string opts.trainTimer
  | rolloverTimer => .string opts.rolloverTimer
  | reloadTimer => .string opts.reloadTimer
  | categoryTableName => .string opts.categoryTableName
  | newsTrendsTableName => .string opts.newsTrendsTableName
  | newsTrendsLogPrefix => .string opts.newsTrendsLogPrefix
  | newsTrendsTimeWindow => .int opts.newsTrendsTimeWindow
  | userInterestsPriorProbType => .int opts.userInterestsPriorProbType
  | userInterestsVisualClicks => .float opts.userInterestsVisualClicks
  | userInterestsTableName => .string opts.userInterestsTableName
  | userInterestsLogPrefix => .string opts.userInterestsLogPrefix
  | userInterestsTimeWindow => .int opts.userInterestsTimeWindow
  | userInterestsMixAlpha => .float opts.userInterestsMixAlpha

/-- The value that the constructor gives the option. -/
def default (key : OptionKey) : OptionValue := key.option { workPath := "" }

/-- When the option named like the key gets the key's value or else its default. -/
def Kept (parser : Config) (opts : ModelOptions) : OptionKey → Prop
  | marshalerR1 => lookup parser marshalerR2 ≠ none ∨ lookup parser marshalerR1 = some (.float (3 / 5))
  | marshalerR2 => lookup parser marshalerR2 ≠ none ∨ opts.marshalerR2 = 3 / 5
  | marshalerN => lookup parser marshalerN ≠ none
  | userInterestsLogPrefix => lookup parser userInterestsTimeWindow ≠ none ∨
      lookup parser userInterestsLogPrefix = some (.string (String.singleton (Char.ofNat 24)))
  | userInterestsTimeWindow => lookup parser userInterestsTimeWindow ≠ none ∨ opts.userInterestsTimeWindow = 24
  | _ => True

/-- What `fromConf` is to leave under a key. -/
def expected (parser : Config) (key : OptionKey) : OptionValue := (key.lookup parser).getD key.default

/-- The options after the lookups, as one record. -/
theorem lookups_eq (parser : Config) (opts : ModelOptions) :
    ModelOptions.lookups parser opts =
      { workPath := opts.workPath
        rpcPort := (parser.lookupInt "rpc_port").getD 6100
        monitorPort := (parser.lookupInt "monitor_port").getD 16100
        marshalerR1 := match parser.lookupFloat "marshaler_r2" with
          | some _ => (parser.lookupFloat "marshaler_r1").getD (2 / 5)
          | none => 3 / 5
        marshalerR2 := (parser.lookupFloat "marshaler_r2").getD opts.marshalerR2
        marshalerTopt := (parser.lookupInt "marshaler_topt").getD 3
        marshalerP := (parser.lookupInt "marshaler_p").getD 4
        marshalerN := (parser.lookupInt "marshaler_n").getD 3
        flushTimer := (parser.lookupString "flush_timer").getD "23/day"
        trainTimer := (parser.lookupString "train_timer").getD "50/hour"
        rolloverTimer := (parser.lookupString "rollover_timer").getD "30/hour"
        reloadTimer := (parser.lookupString "reload_timer").getD "23/day"
        categoryTableName := (parser.lookupString "category_table_name").getD "category.dat"
        newsTrendsTableName := (parser.lookupString "news_trends_table_name").getD "news-trends.dat"
        newsTrendsLogPrefix := (parser.lookupString "news_trends_log_prefix").getD "news-trends"
        newsTrendsTimeWindow := ((parser.lookupInt "news_trends_time_window").getD 48).toInt
        userInterestsPriorProbType := ((parser.lookupInt "user_interests_prior_prob_type").getD 0).toInt
        userInterestsVisualClicks := (parser.lookupFloat "user_interests_visual_clicks").getD 10
        userInterestsTableName := (parser.lookupString "user_interests_table_name").getD "user-interests.dat"
        userInterestsLogPrefix := match parser.lookupInt "user_interests_time_window" with
          | some _ => (parser.lookupString "user_interests_log_prefix").getD "user-interests"
          | none => String.singleton (Char.ofNat 24)
        userInterestsTimeWindow :=
          ((parser.lookupInt "user_interests_time_window").map Int32.toInt).getD opts.userInterestsTimeWindow
        userInterestsMixAlpha := (parser.lookupFloat "user_interests_mix_alpha").getD (7 / 10) } := by
  unfold ModelOptions.lookups
  cases parser.lookupFloat "marshaler_r2" <;> cases parser.lookupInt "user_interests_time_window" <;> rfl

theorem int_option_eq (value : Option Int32) (given : Int32) :
    OptionValue.int (value.getD given).toInt =
      (value.map fun value => OptionValue.int value.toInt).getD (.int given.toInt) := by
  cases value <;> rfl

theorem option_lookups_iff (parser : Config) (opts : ModelOptions) (key : OptionKey) :
    key.option (ModelOptions.lookups parser opts) = key.expected parser ↔ key.Kept parser opts := by
  rw [lookups_eq]
  cases key with
  | marshalerR1 =>
    cases hr2 : parser.lookupFloat "marshaler_r2" with
    | none =>
      cases hr1 : parser.lookupFloat "marshaler_r1" with
      | none => simp [option, expected, default, lookup, Kept, hr1, hr2]
      | some value => simp [option, expected, lookup, Kept, hr1, hr2, eq_comm]
    | some _ =>
      cases hr1 : parser.lookupFloat "marshaler_r1" <;> simp [option, expected, default, lookup, Kept, hr1, hr2]
  | marshalerR2 =>
    cases hr2 : parser.lookupFloat "marshaler_r2" <;> simp [option, expected, default, lookup, Kept, hr2]
  | marshalerN =>
    cases hn : parser.lookupInt "marshaler_n" <;> simp [option, expected, default, lookup, Kept, hn]
  | userInterestsLogPrefix =>
    cases hwindow : parser.lookupInt "user_interests_time_window" with
    | none =>
      cases hprefix : parser.lookupString "user_interests_log_prefix" with
      | none => simp [option, expected, default, lookup, Kept, hwindow, hprefix]
      | some value => simp [option, expected, lookup, Kept, hwindow, hprefix, eq_comm]
    | some _ =>
      cases hprefix : parser.lookupString "user_interests_log_prefix" <;>
        simp [option, expected, default, lookup, Kept, hwindow, hprefix]
  | userInterestsTimeWindow =>
    cases hwindow : parser.lookupInt "user_interests_time_window" <;>
      simp [option, expected, default, lookup, Kept, hwindow]
  | rpcPort | monitorPort | marshalerTopt | marshalerP | newsTrendsTimeWindow | userInterestsPriorProbType =>
    exact iff_of_true (int_option_eq ..) trivial
  | _ => simp [option, expected, default, lookup, Kept, Option.getD_map]

end OptionKey

namespace ModelOptions

theorem fromConf_eq_lookups {reader : ConfigReader} {conf : String} {opts : ModelOptions} {parser : Config}
    (hbase : (reader.fromConf conf opts.workPath).1 = .ok ()) (hread : reader.readFile conf = .ok parser) :
    fromConf reader conf opts =
      (.ok (), lookups parser { opts with workPath := (reader.fromConf conf opts.workPath).2 }) := by
  have hpair : reader.fromConf conf opts.workPath = (.ok (), (reader.fromConf conf opts.workPath).2) :=
    Prod.ext hbase rfl
  unfold fromConf
  rw [hpair, hread]

/-- `fromConf` leaves a key's own value or default under its name exactly when the key is kept. -/
theorem option_fromConf_iff {reader : ConfigReader} {conf : String} {opts : ModelOptions} {parser : Config}
    (hbase : (reader.fromConf conf opts.workPath).1 = .ok ()) (hread : reader.readFile conf = .ok parser)
    (key : OptionKey) :
    (fromConf reader conf opts).1 = .ok () ∧ key.option (fromConf reader conf opts).2 = key.expected parser ↔
      key.Kept parser opts := by
  rw [fromConf_eq_lookups hbase hread]
  have hiff := key.option_lookups_iff parser { opts with workPath := (reader.fromConf conf opts.workPath).2 }
  constructor
  · rintro ⟨-, hoption⟩
    cases key <;> exact hiff.mp hoption
  · intro hkept
    refine ⟨rfl, hiff.mpr ?_⟩
    cases key <;> exact hkept

/-- Two files that agree on a key leave its value, or else its default, under its name exactly when both keep it. -/
theorem fromConf_undisturbed_iff (reader : ConfigReader) (conf conf' : String) (opts : ModelOptions)
    (left right : Config) (key : OptionKey)
    (hbase : (reader.fromConf conf opts.workPath).1 = .ok ()) (hleft : reader.readFile conf = .ok left)
    (hbase' : (reader.fromConf conf' opts.workPath).1 = .ok ()) (hright : reader.readFile conf' = .ok right)
    (agree : key.lookup left = key.lookup right) :
    ((fromConf reader conf opts).1 = .ok () ∧ (fromConf reader conf' opts).1 = .ok () ∧
      key.option (fromConf reader conf opts).2 = (key.lookup left).getD key.default ∧
      key.option (fromConf reader conf' opts).2 = (key.lookup left).getD key.default) ↔
    key.Kept left opts ∧ key.Kept right opts := by
  rw [← option_fromConf_iff hbase hleft, ← option_fromConf_iff hbase' hright]
  have hexpected : key.expected right = (key.lookup left).getD key.default := by
    rw [OptionKey.expected, agree]
  rw [hexpected, OptionKey.expected]
  constructor
  · rintro ⟨hok, hok', hoption, hoption'⟩
    exact ⟨⟨hok, hoption⟩, hok', hoption'⟩
  · rintro ⟨⟨hok, hoption⟩, hok', hoption'⟩
    exact ⟨hok, hok', hoption, hoption'⟩

/-- A file that gives `marshaler_r1` as one half, with or without `marshaler_r2`. -/
def halfConfig (marshalerR2 : Option ℚ) : Config where
  lookupInt _ := none
  lookupFloat name :=
    if name = "marshaler_r1" then some (1 / 2) else if name = "marshaler_r2" then marshalerR2 else none
  lookupString _ := none

def halfReader : ConfigReader where
  readFile conf := .ok (halfConfig (if conf = "both.conf" then some (1 / 4) else none))
  fromConf _ _ := (.ok (), "data")

theorem fromConf_undisturbed_half :
    ((fromConf halfReader "both.conf" { workPath := "" }).1 = .ok () ∧
      (fromConf halfReader "both.conf" { workPath := "" }).1 = .ok () ∧
      OptionKey.marshalerR1.option (fromConf halfReader "both.conf" { workPath := "" }).2 = .float (1 / 2) ∧
      OptionKey.marshalerR1.option (fromConf halfReader "both.conf" { workPath := "" }).2 = .float (1 / 2)) ↔
    OptionKey.marshalerR1.Kept (halfConfig (some (1 / 4))) { workPath := "" } ∧
      OptionKey.marshalerR1.Kept (halfConfig (some (1 / 4))) { workPath := "" } :=
  fromConf_undisturbed_iff halfReader "both.conf" "both.conf" { workPath := "" } (halfConfig (some (1 / 4)))
    (halfConfig (some (1 / 4))) .marshalerR1 rfl rfl rfl rfl rfl

/-- Omitting `marshaler_r2` changes `marshaler_r1`, to which both files give one half. -/
theorem absent_r2_changes_r1 :
    OptionKey.marshalerR1.lookup (halfConfig (some (1 / 4))) = some (.float (1 / 2)) ∧
    OptionKey.marshalerR1.lookup (halfConfig none) = some (.float (1 / 2)) ∧
    halfReader.readFile "both.conf" = .ok (halfConfig (some (1 / 4))) ∧
    halfReader.readFile "r1.conf" = .ok (halfConfig none) ∧
    (fromConf halfReader "both.conf" { workPath := "" }).2.marshalerR1 = 1 / 2 ∧
    (fromConf halfReader "r1.conf" { workPath := "" }).1 = .ok () ∧
    (fromConf halfReader "r1.conf" { workPath := "" }).2.marshalerR1 = 3 / 5 := by
  refine ⟨rfl, rfl, rfl, rfl, rfl, rfl, rfl⟩

end ModelOptions

end ContentBased
