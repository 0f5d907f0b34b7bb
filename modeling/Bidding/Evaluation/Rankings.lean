import Bidding.Foundations.StableRank
import Bidding.Evaluation.Prices

/-!
# The ranking of the bids of a package

The bids of a package are put into lots, those a method admits are sorted by what it compares, and each is ranked by its
place. The text and floating-point functions of the platform are a parameter.
-/

namespace Bidding.Evaluation

open Foundations

/-- `text.normalize("NFD")`, `text.toLocaleLowerCase("vi-VN")` and `text.toLowerCase()`. -/
structure TextFunctions where
  nfd : String → String
  lowerVi : String → String
  lower : String → String

/-- `Number(text)` where it is finite, `parseFloat(text)` where it is no NaN, `Number(amount)`, and the two formulas
of a combined score, of a technical weight, the lowest price, the price of the bid and the technical scores. -/
structure NumberFunctions (F : Type) where
  ofText : String → Option F
  parseFloat : String → Option F
  ofAmount : ℕ → F
  consultingScore : Option F → ℕ → ℕ → F → Option F
  combinedScore : Option F → ℕ → ℕ → F → F → Option F

structure PackageLot where
  maPhanLo : String
  giaTriPhanLo : Price
  deriving DecidableEq

/-- The fields of a package that the ranking reads. -/
structure TenderPackage where
  linhVuc : String
  phanLo : String
  evaluationMethodCode : Option String
  phuongPhapDanhGia : Option String
  giaGoiThau : Price
  phanLoList : List PackageLot
  trongSoKyThuat : Option String
  deriving DecidableEq

/-- The fields of a bid that the ranking reads; a text that is missing is empty. -/
structure Bid where
  id : String
  maPhanLo : String
  danhGiaHopLe : String
  danhGiaNangLuc : String
  danhGiaKyThuat : String
  danhGiaKetLuan : String
  giaDuThau : Price
  giaSauGiamGia : Price
  giaXepHang : Price
  chiPhiQuyDoi : Price
  giaDeNghiTrungThau : Price
  chapThuanGiaDeNghiTrungThauDuoi50 : Value
  deriving DecidableEq

/-- `EVALUATION_METHOD_CODES`. -/
inductive EvaluationMethod where
  | lowestPrice
  | evaluatedPrice
  | fixedPrice
  | combinedTechnicalPrice
  | technicalBased
  deriving DecidableEq

def evaluationMethodCodeByToken : List (String × EvaluationMethod) :=
  [("lowest price", .lowestPrice), ("gia thap nhat", .lowestPrice), ("evaluated price", .evaluatedPrice),
    ("gia danh gia", .evaluatedPrice), ("fixed price", .fixedPrice), ("gia co dinh", .fixedPrice),
    ("combined technical price", .combinedTechnicalPrice), ("ket hop giua ky thuat va gia", .combinedTechnicalPrice),
    ("ket hop ky thuat va gia", .combinedTechnicalPrice), ("technical based", .technicalBased),
    ("dua tren ky thuat", .technicalBased)]

section Ranking

variable (texts : TextFunctions)

/-- `normalizeToken(value)`: the words of unaccented small letters and digits. -/
def normalizeToken (value : String) : String :=
  let unaccented := (texts.nfd value).toList.filter fun c => !(0x300 ≤ c.toNat && c.toNat ≤ 0x36f)
  let small := (texts.lowerVi (String.ofList unaccented)).toList.map fun c => if c = 'đ' then 'd' else c
  let words := small.splitOnP fun c => !(('a' ≤ c && c ≤ 'z') || ('0' ≤ c && c ≤ '9'))
  " ".intercalate ((words.filter fun word => word ≠ []).map String.ofList)

variable (gt : TenderPackage)

def normalizeEvaluationMethod : Option EvaluationMethod :=
  evaluationMethodCodeByToken.lookup (normalizeToken texts ((gt.evaluationMethodCode <|> gt.phuongPhapDanhGia).getD ""))

def requiresTechnicalScoreInput : Bool :=
  normalizeEvaluationMethod texts gt = some .combinedTechnicalPrice

def normalizeLotCode (value : String) : String := texts.lowerVi (jsTrim value)

def normalizeLowPriceAcceptance (value : Value) : Option Bool :=
  if value = .bool true ∨ value = .num 1 ∨ value = .str "1" then some true
  else if value = .bool false ∨ value = .num 0 ∨ value = .str "0" then some false
  else
    let normalized := texts.lowerVi (jsTrim (if value = .null then "" else value.jsString))
    if normalized = "true" ∨ normalized = "chấp thuận" then some true
    else if normalized = "false" ∨ normalized = "không chấp thuận" then some false
    else none

def getProposedAwardReferencePrice (bid : Bid) : Price :=
  if gt.phanLo ≠ "Có" then gt.giaGoiThau
  else
    let bidLotCode := normalizeLotCode texts bid.maPhanLo
    if bidLotCode = "" then .missing
    else
      ((gt.phanLoList.find? fun lot => normalizeLotCode texts lot.maPhanLo = bidLotCode).map
        PackageLot.giaTriPhanLo).getD .missing

def isProposedAwardPriceBelowHalf (bid : Bid) : Bool :=
  match parseVND bid.giaDeNghiTrungThau, parseVND (getProposedAwardReferencePrice texts gt bid) with
  | some price, some referencePrice => price > 0 && referencePrice > 0 && price * 2 < referencePrice
  | _, _ => false

def isLowPriceBidRejected (bid : Bid) : Bool :=
  isProposedAwardPriceBelowHalf texts gt bid &&
    normalizeLowPriceAcceptance texts bid.chapThuanGiaDeNghiTrungThauDuoi50 = some false

variable {F : Type} [LinearOrder F] [Zero F] (numbers : NumberFunctions F)

def isDigits (chars : List Char) : Bool := chars ≠ [] && chars.all Char.isDigit

def splitSign : List Char → List Char × List Char
  | '+' :: rest => (['+'], rest)
  | '-' :: rest => (['-'], rest)
  | rest => ([], rest)

/-- `/^\\d{1,3}(?:\\.\\d{3})+$/`. -/
def isGrouped (chars : List Char) : Bool :=
  match chars.splitOn '.' with
  | lead :: groups =>
    isDigits lead && lead.length ≤ 3 && groups ≠ [] &&
      groups.all fun group => isDigits group && group.length = 3
  | [] => false

/-- `/^(?:\\d+(?:\\.\\d+)?|\\.\\d+)$/`. -/
def isPlainDecimal (chars : List Char) : Bool :=
  match chars.splitOn '.' with
  | [whole] => isDigits whole
  | [whole, fraction] => whole.all Char.isDigit && isDigits fraction
  | _ => false

/-- `text.replace(",", ".")`: the first comma becomes a dot. -/
def replaceFirstComma : List Char → List Char
  | [] => []
  | c :: rest => if c = ',' then '.' :: rest else c :: replaceFirstComma rest

/-- The separators of a number as `Number` takes them. -/
def normalizeSeparators (raw : List Char) : List Char :=
  if ',' ∈ raw ∧ '.' ∈ raw then
    if (raw.reverse.find? fun c => c = ',' || c = '.') = some ',' then
      replaceFirstComma (raw.filter fun c => c ≠ '.')
    else raw.filter fun c => c ≠ ','
  else if ',' ∈ raw then raw.map fun c => if c = ',' then '.' else c
  else if 1 < raw.count '.' || isGrouped (splitSign raw).2 then raw.filter fun c => c ≠ '.'
  else raw

/-- `parseVietnameseNumber(value)`, of a text. -/
def parseVietnameseNumber (value : String) : Option F :=
  let raw := (jsTrim value).toList.filter fun c => !jsWhitespace c
  let unsigned := (splitSign raw).2
  if unsigned = [] || !(unsigned.all fun c => c.isDigit || c = '.' || c = ',') then none
  else
    let normalized := normalizeSeparators raw
    if isPlainDecimal (splitSign normalized).2 then numbers.ofText (String.ofList normalized) else none

def parseTechnicalScore (value : String) : Option F :=
  (parseVietnameseNumber numbers value).filter fun score => 0 ≤ score

variable (gt : TenderPackage)

/-- `gt.linhVuc === "Tư vấn"`. -/
def isTuVan : Bool := gt.linhVuc = "Tư vấn"

/-- `gt.phanLo === "Có"`. -/
def hasLots : Bool := gt.phanLo = "Có"

variable (b : Bid)

/-- `kt !== "không đạt" && kt !== ""`. -/
def technicalNotFailed : Bool :=
  let kt := texts.lower (jsTrim b.danhGiaKyThuat)
  kt ≠ "không đạt" && kt ≠ ""

def isQualified : Bool :=
  if requiresTechnicalScoreInput texts gt && (parseTechnicalScore numbers b.danhGiaKyThuat).isNone then false
  else if b.danhGiaKetLuan ≠ "" then "Đạt".toList.isPrefixOf b.danhGiaKetLuan.toList
  else
    texts.lower (jsTrim b.danhGiaHopLe) = "đạt" && texts.lower (jsTrim b.danhGiaNangLuc) = "đạt" &&
      technicalNotFailed texts b

def getTechScore : F := (parseTechnicalScore numbers b.danhGiaKyThuat).getD 0

def getPriceG : ℕ := moneyBigInt (if b.giaSauGiamGia.truthy then b.giaSauGiamGia else b.giaDuThau)

def getRankingPrice : ℕ := moneyBigInt b.giaXepHang

def isPriceRankable : Bool := getRankingPrice b > 0

def isRankable : Bool := isQualified texts numbers gt b && isPriceRankable b

def evaluationPrice : ℕ :=
  let explicitRankingPrice := moneyBigInt b.giaXepHang
  let basePrice := getPriceG b
  if explicitRankingPrice > 0 then explicitRankingPrice else basePrice + moneyBigInt b.chiPhiQuyDoi

/-- `gMin`, the lowest of the prices above zero. -/
def lowestPrice (eligibleBids : List Bid) : ℕ :=
  let prices := (eligibleBids.map getRankingPrice).filter fun p => p > 0
  prices.foldl (fun minimum price => if price < minimum then price else minimum) (prices.headD 0)

/-- `maxTech`. -/
def highestTechScore (eligibleBids : List Bid) : F :=
  match eligibleBids.map (getTechScore numbers) with
  | [] => 0
  | score :: scores => scores.foldl max score

def consultingScore (gt : TenderPackage) (eligibleBids : List Bid) (b : Bid) : Option F :=
  let K := numbers.parseFloat (gt.trongSoKyThuat.getD "80")
  if getRankingPrice b > 0 then
    numbers.consultingScore K (lowestPrice eligibleBids) (getRankingPrice b) (getTechScore numbers b)
  else some 0

/-- The score of a bid of another package. -/
def combinedScore (gt : TenderPackage) (eligibleBids : List Bid) (b : Bid) : Option F :=
  let K := numbers.parseFloat (gt.trongSoKyThuat.getD "30")
  if getRankingPrice b > 0 ∧ highestTechScore numbers eligibleBids > 0 then
    numbers.combinedScore K (lowestPrice eligibleBids) (getRankingPrice b) (getTechScore numbers b)
      (highestTechScore numbers eligibleBids)
  else some 0

/-- `rankings` and `scores`; a score that is NaN is `none`. -/
structure Rankings (F : Type) where
  rankings : Dict String ℕ
  scores : Dict String (Option F)

/-- `scores[b.id] = …` for the eligible bids. -/
def writeScores (score : Bid → Option F) (scores : Dict String (Option F)) (eligibleBids : List Bid) : Dict String (Option F) :=
  eligibleBids.foldl (fun scores b => scores.set b.id (score b)) scores

/-- `scores[b.id] || 0`. -/
def scoreOrZero (scores : Dict String (Option F)) (b : Bid) : F := ((scores.get? b.id).getD none).getD 0

/-- The eligible bids of a lot in the order of their ranks, and the scores. -/
def sortEligible (scores : Dict String (Option F)) (group : List Bid) : List Bid × Dict String (Option F) :=
  let lotBids := group.filter fun bid => !isLowPriceBidRejected texts gt bid
  if isTuVan gt then
    match normalizeEvaluationMethod texts gt with
    | some .lowestPrice =>
      let eligibleBids := lotBids.filter fun b => technicalNotFailed texts b && isPriceRankable b
      (eligibleBids.mergeSort fun x y => getRankingPrice x ≤ getRankingPrice y, scores)
    | some .fixedPrice =>
      let packagePrice := moneyBigInt gt.giaGoiThau
      let eligibleBids := lotBids.filter fun b => getPriceG b > 0 && getPriceG b ≤ packagePrice
      (eligibleBids.mergeSort fun x y => getTechScore numbers y ≤ getTechScore numbers x, scores)
    | some .combinedTechnicalPrice =>
      let eligibleBids := lotBids.filter fun b => isQualified texts numbers gt b && isPriceRankable b
      let scores := writeScores (consultingScore numbers gt eligibleBids) scores eligibleBids
      (eligibleBids.mergeSort fun x y => scoreOrZero scores y ≤ scoreOrZero scores x, scores)
    | some .technicalBased =>
      (lotBids.mergeSort fun x y => getTechScore numbers y ≤ getTechScore numbers x, scores)
    | _ => ([], scores)
  else
    match normalizeEvaluationMethod texts gt with
    | some .lowestPrice =>
      let eligibleBids := lotBids.filter (isRankable texts numbers gt)
      (eligibleBids.mergeSort fun x y => getRankingPrice x ≤ getRankingPrice y, scores)
    | some .evaluatedPrice =>
      let eligibleBids := lotBids.filter (isRankable texts numbers gt)
      let scores := writeScores (fun b => some (numbers.ofAmount (evaluationPrice b))) scores eligibleBids
      (eligibleBids.mergeSort fun x y => evaluationPrice x ≤ evaluationPrice y, scores)
    | some .combinedTechnicalPrice =>
      let eligibleBids := lotBids.filter (isRankable texts numbers gt)
      let scores := writeScores (combinedScore numbers gt eligibleBids) scores eligibleBids
      (eligibleBids.mergeSort fun x y => scoreOrZero scores y ≤ scoreOrZero scores x, scores)
    | some .technicalBased =>
      let eligibleBids := lotBids.filter (isQualified texts numbers gt)
      (eligibleBids.mergeSort fun x y => getTechScore numbers y ≤ getTechScore numbers x, scores)
    | _ => ([], scores)

/-- `rankings[b.id] = index + 1` for the eligible bids. -/
def writeRanks (rankings : Dict String ℕ) (eligibleBids : List Bid) : Dict String ℕ :=
  eligibleBids.zipIdx.foldl (fun rankings entry => rankings.set entry.1.id (entry.2 + 1)) rankings

def rankGroup (state : Rankings F) (group : List Bid) : Rankings F :=
  let sorted := sortEligible texts numbers gt state.scores group
  ⟨writeRanks state.rankings sorted.1, sorted.2⟩

/-- `b.maPhanLo || "default"`. -/
def lotKey : String := if b.maPhanLo = "" then "default" else b.maPhanLo

def objectProperties : List String :=
  ["constructor", "__defineGetter__", "__defineSetter__", "hasOwnProperty", "__lookupGetter__", "__lookupSetter__",
    "isPrototypeOf", "propertyIsEnumerable", "toString", "valueOf", "__proto__", "toLocaleString"]

def addToLot (groups : Dict String (List Bid)) (b : Bid) : Dict String (List Bid) :=
  groups.set (lotKey b) ((groups.get? (lotKey b)).getD [] ++ [b])

def groupsOf (bids : List Bid) : Dict String (List Bid) :=
  if hasLots gt then bids.foldl addToLot Dict.empty else Dict.empty.set "default" bids

/-- `calculateRankings(gt, bids)`; `none` where it throws, as `push` is no function of an object's own properties. -/
def calculateRankings (bids : List Bid) : Option (Rankings F) :=
  if hasLots gt && bids.any fun b => lotKey b ∈ objectProperties then none
  else some ((groupsOf gt bids).values.foldl (rankGroup texts numbers gt) ⟨Dict.empty, Dict.empty⟩)

end Ranking

end Bidding.Evaluation
