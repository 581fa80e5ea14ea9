import Mockinx.Chaos.Percentages
import Mockinx.Chaos.Selection
import Mockinx.Chaos.Warned
import Mockinx.PathMatch
import Mockinx.Reply.ChunksRand
import Mockinx.Reply.CrudCommute
import Mockinx.Reply.CrudIdentity
import Mockinx.Reply.CrudIds
import Mockinx.Reply.CrudList
import Mockinx.RuleKeys
import Mockinx.Serve.Dispatch
import Mockinx.Serve.Drop
import Mockinx.Serve.DropWarning
import Mockinx.Serve.HangBytes
import Mockinx.Serve.Limits
import Mockinx.Serve.PaceTarget
import Mockinx.Serve.RateConcurrent
import Mockinx.Serve.RateHistory
import Mockinx.Serve.SpeedCap
import Mockinx.Serve.Timetable
import Mockinx.Serve.Timing
import Mockinx.Server.Admission
import Mockinx.Server.ChaosInherit
import Mockinx.Server.ContentType
import Mockinx.Server.CrudRouting
import Mockinx.Server.OwnObjects
import Mockinx.Server.Progress
import Mockinx.Server.Received
import Mockinx.Server.ReflectSafety
import Mockinx.Server.Refusal
import Mockinx.Server.Registry
import Mockinx.Server.Reload
import Mockinx.Server.ReplaceVisibility
import Mockinx.Server.Resource
import Mockinx.Server.RuleIdentity
import Mockinx.Server.Sendable
import Mockinx.Server.SequenceCycle
import Mockinx.Server.Serializability
import Mockinx.Server.Silence
import Mockinx.Server.Timeout
import Mockinx.Server.Turns
import Mockinx.Server.Uptime
import Mockinx.Server.UrlEncoding
import Mockinx.Suggest.Nearest
import Mockinx.Units.DurationRange
import Mockinx.Units.Sampled
