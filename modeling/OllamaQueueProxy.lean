import OllamaQueueProxy.Concurrency.Pool
import OllamaQueueProxy.Concurrency.Expiry
import OllamaQueueProxy.Queue.Bytes
import OllamaQueueProxy.Queue.Order
import OllamaQueueProxy.Queue.Admission
import OllamaQueueProxy.Queue.Wakeup
import OllamaQueueProxy.Queue.Shutdown
import OllamaQueueProxy.Queue.Flush
import OllamaQueueProxy.Routing.Polling
import OllamaQueueProxy.Proxy.Attempts
import OllamaQueueProxy.Proxy.Termination
import OllamaQueueProxy.Proxy.Management
import OllamaQueueProxy.Handler.Agreement
import OllamaQueueProxy.Handler.Throttle
import OllamaQueueProxy.Handler.Policy
import OllamaQueueProxy.Handler.Attribution
import OllamaQueueProxy.Handler.Compatibility
import OllamaQueueProxy.Cache.Transparency
import OllamaQueueProxy.Cache.Degradation
import OllamaQueueProxy.Routing.Shares
import OllamaQueueProxy.Queue.RetryAfter
import OllamaQueueProxy.Queue.Watermark
import OllamaQueueProxy.Cache.Metrics
import OllamaQueueProxy.Webhooks.Events
import OllamaQueueProxy.Handler.Limits
import OllamaQueueProxy.Cache.StartupError
import OllamaQueueProxy.Webhooks.Validation
import OllamaQueueProxy.Routes.Labels
import OllamaQueueProxy.Handler.ReadBody
import OllamaQueueProxy.Cache.Preimage
import OllamaQueueProxy.Config.Load
import OllamaQueueProxy.Queue.Halt
import OllamaQueueProxy.Application.Access
import OllamaQueueProxy.Application.Progress
import OllamaQueueProxy.Application.Statistics
import OllamaQueueProxy.Application.Closing
import OllamaQueueProxy.Routes.Metrics
import OllamaQueueProxy.Config.Validation
