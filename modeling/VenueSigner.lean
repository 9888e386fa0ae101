import VenueSigner.Address
import VenueSigner.Auth.Credentials
import VenueSigner.Auth.Headers
import VenueSigner.Bytes
import VenueSigner.Chain.Approval
import VenueSigner.Chain.Call
import VenueSigner.Chain.Contracts
import VenueSigner.Chain.Rlp
import VenueSigner.Chain.Transaction
import VenueSigner.Config.Basic
import VenueSigner.Config.Setting
import VenueSigner.Config.Source
import VenueSigner.Config.Toml
import VenueSigner.Curve.Secp256k1
import VenueSigner.Curve.Signature
import VenueSigner.Decimal.Arithmetic
import VenueSigner.Decimal.Basic
import VenueSigner.Decimal.Text
import VenueSigner.Error
import VenueSigner.Hash.Keccak.Permutation
import VenueSigner.Hash.Keccak.Sponge
import VenueSigner.Hash.Sha256
import VenueSigner.Json.Binary64
import VenueSigner.Json.Literal
import VenueSigner.Json.Members
import VenueSigner.Json.Number
import VenueSigner.Json.Record
import VenueSigner.Json.Token
import VenueSigner.Json.Tree
import VenueSigner.Json.Value
import VenueSigner.Market.Amounts
import VenueSigner.Market.Book
import VenueSigner.Market.Level
import VenueSigner.Market.TickSize
import VenueSigner.Order.Basic
import VenueSigner.Order.Builder
import VenueSigner.Order.Order
import VenueSigner.Order.Posting
import VenueSigner.Order.Request
import VenueSigner.Positional
import VenueSigner.Rounding
import VenueSigner.Signer
import VenueSigner.Text.Base64
import VenueSigner.Text.Characters
import VenueSigner.Text.Digits
import VenueSigner.Text.Hex
import VenueSigner.TypedData.Domain
import VenueSigner.TypedData.Encode
import VenueSigner.TypedData.Kind
import VenueSigner.TypedData.Payload
import VenueSigner.TypedData.Schema
import VenueSigner.Uint
import VenueSigner.Proofs.Sponge
import VenueSigner.Proofs.ReadBack
import VenueSigner.Proofs.StructEncoding
import VenueSigner.Proofs.Commitment
import VenueSigner.Proofs.DecimalValue
import VenueSigner.Proofs.BaseUnits
import VenueSigner.Proofs.ClampedAmount
import VenueSigner.Proofs.LimitOrder
import VenueSigner.Proofs.ItemReader
import VenueSigner.Proofs.NumberItem
import VenueSigner.Proofs.RawTransaction
import VenueSigner.Proofs.DecimalQuotient
import VenueSigner.Proofs.DecimalRoom
import VenueSigner.Proofs.MarketOrder
import VenueSigner.Proofs.MarketDivision
import VenueSigner.Proofs.BookDepth
import VenueSigner.Proofs.BookFill
import VenueSigner.Proofs.DomainEncoding
import VenueSigner.Proofs.TypeString
import VenueSigner.Proofs.PostedOrder
import VenueSigner.Proofs.CallReader
import VenueSigner.Proofs.ApprovalPlan
import VenueSigner.Proofs.ClearingPrice
import VenueSigner.Proofs.SmallerTarget
import VenueSigner.Proofs.DecimalText
import VenueSigner.Proofs.WalletHeaders
import VenueSigner.Proofs.WireRecords
import VenueSigner.Proofs.Meaning
import VenueSigner.Proofs.MessageCommitment
import VenueSigner.Proofs.StandardPermutation
import VenueSigner.Proofs.BinaryRounding
import VenueSigner.Proofs.NumberText
import VenueSigner.Proofs.IntegerKinds
import VenueSigner.Proofs.SchemaRecursion
import VenueSigner.Proofs.ValueText
import VenueSigner.Proofs.PayloadText
import VenueSigner.Proofs.Declared
import VenueSigner.Proofs.TypeStringReading
import VenueSigner.Proofs.SchemaTrace
import VenueSigner.Proofs.SpelledStructs
import VenueSigner.Proofs.KindNames
import VenueSigner.Proofs.HexText
import VenueSigner.Proofs.NumeralText
import VenueSigner.Proofs.IntegerTexts
import VenueSigner.Proofs.AddressText
import VenueSigner.Proofs.DigitCount
import VenueSigner.Proofs.Base64Text
import VenueSigner.Proofs.SecretText
import VenueSigner.Proofs.RequestHeaders
import VenueSigner.Proofs.RecordOrder
import VenueSigner.Proofs.BookSummary
import VenueSigner.Proofs.CallWords
import VenueSigner.Proofs.ConfigSources
