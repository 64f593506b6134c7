import StrategyDoc.Catalog.Basic

/-! # The catalog

All functions of the strategy language, group by group.  `Catalog.find?` looks a function
up by its exact name. -/

namespace StrategyDoc.Catalog

/-! ### Kinds and fields that several contracts share -/

def candleTimes : List String := ["1min", "5min", "1hour", "1day", "1week"]

def exchanges : List String := ["NSE", "BSE"]

def currencies : List String := ["INR"]

def instrumentClasses : List String := ["equity", "options", "futures"]

def bandKeys : List String := ["high", "middle", "low"]

def candleTime : FieldKind := .oneOf candleTimes

/-- The fields of an instrument. -/
def instrumentFields : List FieldSpec :=
  [("name", .text), ("type", .oneOf instrumentClasses), ("ticker", .text)]

def instrument : FieldKind := .shape instrumentFields

def anyArguments : List FieldSpec := [("args", .sequence none)]

def oneArgument : List FieldSpec := [("args", .sequence (some 1))]

def twoArguments : List FieldSpec := [("args", .sequence (some 2))]

/-- The fields of an indicator over a number of candles. -/
def periodIndicator : List FieldSpec := [
  ("instrument", instrument), ("candletime", candleTime), ("period", .expression),
  ("index", .optional .expression)]

/-- The fields of a series that is read at one candle. -/
def indexedSeries : List FieldSpec := [
  ("instrument", instrument), ("candletime", candleTime), ("index", .expression)]

/-- The fields of an indicator with a fast and a slow average. -/
def fastSlowIndicator : List FieldSpec := [
  ("instrument", instrument), ("candletime", candleTime), ("fast", .expression),
  ("slow", .expression), ("index", .optional .expression)]

/-- The fields of a stochastic oscillator. -/
def stochastic : List FieldSpec := [
  ("instrument", instrument), ("candletime", candleTime), ("k_period", .expression),
  ("d_period", .expression), ("key", .oneOf ["k", "d"]), ("index", .optional .expression)]

/-! ### The contracts -/

/-- Every contract, in the order of listing. -/
def all : List Contract := [
  ⟨"Get Capital", .userData, [("index", .expression), ("key", .oneOf ["quantity"])]⟩,
  ⟨"Get Position", .userData, [
    ("index", .expression), ("key", .oneOf ["entry_price", "quantity"])]⟩,
  ⟨"Get Order Book", .marketData, [
    ("instrument", instrument), ("side", .oneOf ["bid", "offer"]), ("index", .expression),
    ("key", .oneOf ["price", "quantity"])]⟩,
  ⟨"Get Candle", .marketData, [
    ("instrument", instrument), ("candletime", candleTime), ("index", .expression),
    ("key", .oneOf ["open", "high", "low", "close", "volume"])]⟩,
  ⟨"Get Tic", .marketData, [
    ("instrument", instrument), ("index", .expression), ("key", .oneOf ["ltp", "volume"])]⟩,
  ⟨"Place Market Order", .orders, [
    ("exchange", .oneOf exchanges), ("instrument", instrument), ("quantity", .expression)]⟩,
  ⟨"Place Limit Order", .orders, [
    ("exchange", .oneOf exchanges), ("instrument", instrument), ("quantity", .expression),
    ("currency", .oneOf currencies), ("limit_price", .expression)]⟩,
  ⟨"+", .arithmetic, anyArguments⟩,
  ⟨"-", .arithmetic, anyArguments⟩,
  ⟨"*", .arithmetic, anyArguments⟩,
  ⟨"/", .arithmetic, anyArguments⟩,
  ⟨"^", .arithmetic, twoArguments⟩,
  ⟨"ABS", .arithmetic, oneArgument⟩,
  ⟨"MIN", .arithmetic, anyArguments⟩,
  ⟨"MAX", .arithmetic, anyArguments⟩,
  ⟨"AND", .logic, anyArguments⟩,
  ⟨"OR", .logic, anyArguments⟩,
  ⟨"NOT", .logic, oneArgument⟩,
  ⟨">", .comparison, twoArguments⟩,
  ⟨"<", .comparison, twoArguments⟩,
  ⟨">=", .comparison, twoArguments⟩,
  ⟨"<=", .comparison, twoArguments⟩,
  ⟨"==", .comparison, twoArguments⟩,
  ⟨"!=", .comparison, twoArguments⟩,
  ⟨"get", .variables, [("symbol", .identifier)]⟩,
  ⟨"set", .variables, [("symbol", .identifier), ("value", .expression)]⟩,
  ⟨"SMA", .movingAverage, periodIndicator⟩,
  ⟨"EMA", .movingAverage, [
    ("instrument", instrument), ("candletime", candleTime), ("period", .expression),
    ("smoothing", .expression), ("index", .optional .expression)]⟩,
  ⟨"WMA", .movingAverage, periodIndicator⟩,
  ⟨"HMA", .movingAverage, periodIndicator⟩,
  ⟨"SMMA", .movingAverage, periodIndicator⟩,
  ⟨"DEMA", .movingAverage, fastSlowIndicator⟩,
  ⟨"TEMA", .movingAverage, fastSlowIndicator⟩,
  ⟨"TRIMA", .movingAverage, periodIndicator⟩,
  ⟨"KAMA", .movingAverage, periodIndicator⟩,
  ⟨"ADX", .trendStrength, periodIndicator⟩,
  ⟨"ADXR", .trendStrength, periodIndicator⟩,
  ⟨"DMI", .trendStrength, [
    ("instrument", instrument), ("candletime", candleTime), ("period", .expression),
    ("key", .oneOf ["plus", "minus"]), ("index", .optional .expression)]⟩,
  ⟨"Aroon", .trendStrength, [
    ("instrument", instrument), ("candletime", candleTime), ("period", .expression),
    ("key", .oneOf ["up", "down"]), ("index", .optional .expression)]⟩,
  ⟨"Parabolic SAR", .trendStrength, [
    ("instrument", instrument), ("candletime", candleTime), ("step", .expression),
    ("max_step", .expression), ("index", .optional .expression)]⟩,
  ⟨"Ichimoku", .trendStrength, [
    ("instrument", instrument), ("candletime", candleTime), ("tenkan", .expression),
    ("kijun", .expression), ("senkou_a", .expression), ("senkou_b", .expression),
    ("key", .oneOf ["tenkan", "kijun", "senkou_a", "senkou_b", "chikou"]),
    ("index", .optional .expression)]⟩,
  ⟨"RSI", .momentum, periodIndicator⟩,
  ⟨"Stochastic", .momentum, stochastic⟩,
  ⟨"Stochastic RSI", .momentum, stochastic⟩,
  ⟨"CCI", .momentum, periodIndicator⟩,
  ⟨"ROC", .momentum, periodIndicator⟩,
  ⟨"Williams %R", .momentum, periodIndicator⟩,
  ⟨"Ultimate Oscillator", .momentum, periodIndicator⟩,
  ⟨"TRIX", .momentum, periodIndicator⟩,
  ⟨"MACD", .momentum, [
    ("instrument", instrument), ("candletime", candleTime), ("fast", .expression),
    ("slow", .expression), ("signal", .expression), ("key", .oneOf ["macd", "signal", "hist"]),
    ("index", .optional .expression)]⟩,
  ⟨"ATR", .volatility, periodIndicator⟩,
  ⟨"Bollinger Bands", .volatility, [
    ("instrument", instrument), ("candletime", candleTime), ("period", .expression),
    ("stddev", .expression), ("key", .oneOf bandKeys), ("index", .optional .expression)]⟩,
  ⟨"Donchian Channels", .volatility, [
    ("instrument", instrument), ("candletime", candleTime), ("period", .expression),
    ("key", .oneOf ["high", "low"]), ("index", .optional .expression)]⟩,
  ⟨"Keltner Channels", .volatility, [
    ("instrument", instrument), ("candletime", candleTime), ("period", .expression),
    ("multiplier", .expression), ("key", .oneOf bandKeys), ("index", .optional .expression)]⟩,
  ⟨"OBV", .volume, indexedSeries⟩,
  ⟨"Chaikin Money Flow", .volume, periodIndicator⟩,
  ⟨"Accum/Dist Line", .volume, indexedSeries⟩,
  ⟨"Force Index", .volume, periodIndicator⟩,
  ⟨"Volume Oscillator", .volume, periodIndicator⟩,
  ⟨"Pivot Points", .marketStructure, [
    ("instrument", instrument), ("candletime", candleTime), ("period", .expression),
    ("key", .oneOf ["pp", "r1", "r2", "r3", "s1", "s2", "s3"]),
    ("index", .optional .expression)]⟩,
  ⟨"Fair Value Gap", .misc, indexedSeries⟩,
  ⟨"Put Call Ratio", .misc, periodIndicator⟩,
  ⟨"Open Interest", .misc, periodIndicator⟩,
  ⟨"VWAP", .misc, [
    ("instrument", instrument), ("candletime", candleTime), ("index", .optional .expression)]⟩]

/-- The contract of a function. -/
def find? (name : String) : Option Contract := all.find? (·.name == name)

end StrategyDoc.Catalog
